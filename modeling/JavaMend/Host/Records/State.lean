import JavaMend.Host.Records.Parts

/-!
# `Host.Records.State` — what a program over records works with

Variables have values or are tables; some of them tell about the record. The record is kept with its fields, so that a
change of one is a change of the other. Lines come from files and commands, and go to them.

## Contents
- **The state.** `Slot`, `Source`, `Inflow`, `Outflow`, `Desk`; `Halt`, `Act`.
- **Faults.** `breakOff`, `runFault`.
- **Variables.** `slotOf`, `valueOf`, `setSlot`, `tableOf`, `entryOf`, `setEntry`.
- **Regular expressions.** `readRe`.
- **The record.** `setRecord`, `setFieldCount`, `fieldAt`, `setField`, `assign`.
- **Output.** `flushOutput`, `say`, `openOut`, `closeOut`.
- **Commands.** `runShell`, `captureShell`.
- **Input.** `takeFrom`, `nextOperand`, `nextRecord`, `readInflow`, `closeNamed`.
-/

namespace JavaMend.Host.Records

open JavaMend Text

/-! ## The state -/

/-- What a name stands for. -/
inductive Slot where
  | scalar (v : Value)
  /-- A table; it is nothing as yet if no table has the number. -/
  | table (id : Nat)

/-- A text that is read piece by piece. -/
structure Source where
  /-- What was read of it and is not used. -/
  atHand : Text
  /-- The rest is the input of the tool. -/
  isInput : Bool
  /-- It goes on without an end. -/
  endless : Bool

/-- A file or a command that lines are read from. -/
structure Inflow where
  name : Text
  inlet : Inlet
  source : Source
  /-- How the command ended. -/
  code : Int

/-- A file or a command that output goes to. -/
structure Outflow where
  name : Text
  outlet : Outlet
  /-- What did not go there as yet, the latest first. -/
  held : List Text

/-- The state. -/
structure Desk where
  globals : Std.HashMap Text Slot
  /-- The variables of the function that is at work. -/
  locals : List (Text × Slot)
  tables : Std.HashMap Nat Table
  nextTable : Nat
  record : Text
  fields : Array Value
  /-- The operand to be read next. -/
  operand : Nat
  /-- What records are read from; none if nothing is open. -/
  current : Option Source
  /-- An operand was a file. -/
  anyFile : Bool
  /-- No record is left. -/
  drained : Bool
  inflows : List Inflow
  outflows : List Outflow
  /-- The output that did not go out as yet, the latest first, and its length. -/
  held : List Text
  heldSize : Nat
  /-- The rules that go from one record to another are between them. -/
  within : Array Bool
  /-- Regular expressions that were read. -/
  patterns : Std.HashMap Text Re
  /-- The state of the random numbers, and what they began with. -/
  chance : Nat
  seed : Value
  /-- How many variables the calls that are at work have. -/
  depth : Nat
  /-- How much more may be done. -/
  budget : Nat

/-- Why the work on a record ends early. -/
inductive Halt where
  | next
  | nextFile
  | exit

/-- Steps of the work. -/
abbrev Act := ExceptT Halt (StateT Desk Job)

/-- Do something as a tool. -/
def act {α : Type} (j : Job α) : Act α := ExceptT.lift (StateT.lift j)

/-- Take from the budget; what uses it up never ends. -/
def spend (cost : Nat) : Act Unit := do
  if (← get).budget < cost then act (throw .endless)
  modify fun d => { d with budget := d.budget - cost }

/-! ## Output -/

/-- How much output is held back. -/
def outputBlock : Nat := 4096

/-- Let the held output go out. -/
def flushOutput : Act Unit := do
  let t := (← get).held.reverse.flatten
  modify fun d => { d with held := [], heldSize := 0 }
  act (Host.print t)

/-- Write to the output. What is held back goes out when it is more than a block. -/
def say (t : Text) : Act Unit := do
  modify fun d => { d with held := t :: d.held, heldSize := d.heldSize + t.length }
  if outputBlock < (← get).heldSize then
    let all := (← get).held.reverse.flatten
    let gone := all.length - all.length % outputBlock
    act (Host.print (all.take gone))
    modify fun d => { d with held := [all.drop gone], heldSize := all.length - gone }

/-- A file that something was written to gets it. -/
def flushOutflow (o : Outflow) : Act Unit := do
  if o.outlet != .command && !o.held.isEmpty then
    let before := match ← act (readPath o.name) with
      | .ok t    => t
      | .error _ => []
    discard (act (writePath o.name (before ++ o.held.reverse.flatten)))

/-- Let everything go out that is held for the output and for files. -/
def flushAll : Act Unit := do
  flushOutput
  for o in (← get).outflows.reverse do
    flushOutflow o
  modify fun d => { d with outflows := d.outflows.map fun o => if o.outlet == .command then o else { o with held := [] } }

/-! ## Faults -/

/-- Complain and end with code 2. -/
def breakOff {α : Type} (complaint : Text) : Act α := do
  act (blame complaint)
  flushAll
  act (quit 2)

/-- The value of a variable for all functions. -/
def globalOf (name : Text) : Act Value := do
  match (← get).globals[name]? with
  | some (.scalar v) => return v
  | _                => return .unset

/-- The text of a variable. -/
def globalText (name : String) : Act Text := do
  let convert := (← globalOf (text "CONVFMT")).toText (text "%.6g")
  return (← globalOf name.toList).toText convert

/-- Complain about something that happens while the program runs, and end. -/
def runFault {α : Type} (complaint : Text) : Act α := do
  let file ← globalText "FILENAME"
  let lineNumber ← globalText "FNR"
  let number ← globalText "NR"
  breakOff (text "run time error: " ++ complaint ++ text "\n\tFILENAME=\"" ++ file ++ text "\" FNR=" ++ lineNumber ++
    text " NR=" ++ number)

/-! ## Variables -/

/-- What a name stands for. -/
def slotOf (name : Text) : Act Slot := do
  let d ← get
  match d.locals.lookup name with
  | some s => return s
  | none   => return (d.globals[name]?).getD (.scalar .unset)

/-- Let a name stand for something. -/
def setSlot (name : Text) (s : Slot) : Act Unit :=
  modify fun d =>
    if d.locals.any fun l => l.1 == name then
      { d with locals := d.locals.map fun l => if l.1 == name then (name, s) else l }
    else { d with globals := d.globals.insert name s }

/-- The value of a variable. -/
def valueOf (name : Text) : Act Value := do
  match ← slotOf name with
  | .scalar v => return v
  | .table id => do
    if (← get).tables.contains id then breakOff (text "line 1: illegal reference to array " ++ name)
    return .unset

/-- A number for a table. -/
def newTable : Act Nat := do
  let id := (← get).nextTable
  modify fun d => { d with nextTable := id + 1 }
  return id

/-- The number of the table that a name stands for; a name without a value becomes one. -/
def tableOf (name : Text) : Act Nat := do
  match ← slotOf name with
  | .table id      => do
    if !(← get).tables.contains id then
      modify fun d => { d with tables := d.tables.insert id .empty }
    return id
  | .scalar .unset => do
    let id ← newTable
    setSlot name (.table id)
    modify fun d => { d with tables := d.tables.insert id .empty }
    return id
  | .scalar _      => breakOff (text "line 1: illegal reference to variable " ++ name)

/-- How numbers become texts. -/
def convertForm : Act Text := do
  return (← globalOf (text "CONVFMT")).toText (text "%.6g")

/-- The text of a value. -/
def textOf (v : Value) : Act Text := do
  match v with
  | .chars t  => return t
  | .both t _ => return t
  | v         => return v.toText (← convertForm)

/-- The key that a value is. -/
def keyOf (v : Value) : Act Key := do
  let whole := match v with
    | .number x => wholeOf? x
    | _         => none
  return ⟨← textOf v, whole.filter fun n => -(Nat.pow 2 63 : Nat) ≤ n ∧ n < (Nat.pow 2 63 : Nat)⟩

/-- There is something under a key of a table. -/
def hasEntry (id : Nat) (k : Key) : Act Bool := do
  let there := match (← get).tables[id]? with
    | some t => t.entries.contains k.word
    | none   => false
  modify fun d => { d with tables := d.tables.modify id fun t => (t.find? k).2 }
  return there

/-- The value under a key of a table. A key that is not there is added. -/
def entryOf (id : Nat) (k : Key) : Act Value := do
  match ((← get).tables[id]?).bind fun t => t.entries[k.word]? with
  | some e => do
    modify fun d => { d with tables := d.tables.modify id fun t => (t.find? k).2 }
    return e.value
  | none   => do
    modify fun d => { d with tables := d.tables.modify id fun t => t.set k .unset }
    return .unset

/-- Put a value under a key of a table. -/
def setEntry (id : Nat) (k : Key) (v : Value) : Act Unit :=
  modify fun d => { d with tables := d.tables.modify id fun t => t.set k v }

/-- Give a variable a value, and nothing else. -/
def setGlobal (name : String) (v : Value) : Act Unit :=
  modify fun d => { d with globals := d.globals.insert name.toList (.scalar v) }

/-- Make a variable a table with entries. -/
def setGlobalTable (name : String) (entries : List (Key × Value)) : Act Unit := do
  let id ← newTable
  modify fun d =>
    { d with globals := d.globals.insert name.toList (.table id)
             tables := d.tables.insert id (entries.foldl (fun t (k, v) => t.set k v) .empty) }

/-! ## Regular expressions -/

/-- The regular expression that a text spells. -/
def readRe (source : Text) : Act Re := do
  match (← get).patterns[source]? with
  | some re => return re
  | none    =>
    match readPatternText source with
    | .error fault => runFault fault
    | .ok re       => do
      modify fun d => { d with patterns := d.patterns.insert source re }
      return re

/-! ## The record -/

/-- Tell how many fields there are. -/
def noteFieldCount : Act Unit := do setGlobal "NF" (.ofNat (← get).fields.size)

/-- Set the record; its fields change with it. -/
def setRecord (t : Text) : Act Unit := do
  let separator ← fieldSeparator readRe (← globalText "FS")
  spend (1 + t.length / 64)
  let fields := ((fieldsOf separator t).map Value.ofInput).toArray
  modify fun d => { d with record := t, fields := fields }
  noteFieldCount

/-- Build the record of its fields. -/
def joinFields : Act Unit := do
  let form := (← globalOf (text "OFMT")).toText (text "%.6g")
  let between ← globalText "OFS"
  modify fun d => { d with record := joinWith between (d.fields.toList.map fun v => v.toText form) }

/-- The most fields that a record may have. -/
def fieldLimit : Nat := 100000

/-- There are so many fields now; new ones are empty. -/
def resizeFields (n : Nat) : Act Unit := do
  if fieldLimit < n then act (throw .endless)
  modify fun d =>
    { d with fields := (d.fields.extract 0 n) ++ Array.replicate (n - d.fields.size) (Value.chars []) }

/-- Give the record so many fields. -/
def setFieldCount (v : Value) : Act Unit := do
  let n := wholePart v.toNumber
  if n < 0 then runFault (text "negative value assigned to NF")
  resizeFields n.toNat
  joinFields
  setGlobal "NF" v

/-- The value of a field. -/
def fieldAt (i : Nat) : Act Value := do
  let d ← get
  if i = 0 then return .ofInput d.record else return (d.fields[i - 1]?).getD .unset

/-- Set a field; the record changes with it. -/
def setField (i : Nat) (v : Value) : Act Unit := do
  if i = 0 then setRecord (← textOf v)
  else
    if (← get).fields.size < i then
      resizeFields i
      noteFieldCount
    modify fun d => { d with fields := d.fields.set! (i - 1) v }
    joinFields

/-- Assign a value to a variable. -/
def assign (name : Text) (v : Value) : Act Unit := do
  if name = text "NF" then setFieldCount v
  else
    match (← get).globals[name]? with
    | some (.table id) => do
      let isLocal := (← get).locals.any fun l => l.1 == name
      if !isLocal && (← get).tables.contains id then breakOff (text "line 1: illegal reference to array " ++ name)
    | _                => pure ()
    setSlot name (.scalar v)

/-! ## Commands -/

/-- The number that an exit is told as. -/
def codeOf : Exit → Int
  | .code n   => n
  | .signal n => 256 + n

/-- Run a command of the shell, with an input or with that of the tool; what it wrote to the channels that do not pass. -/
def runShell (command : Text) (input : Option Text) (passes : Nat → Bool) : Act (Int × Text × Bool) := do
  let s ← act read
  let own := (← act get).rest
  let run ← act (runCommand
    { program := text "/bin/sh", name := text "/bin/sh", args := [text "-c", command], dir := s.dir
      input := input.getD own, seekable := input.isNone && s.seekable, env := some s.env, channels := s.channels
      limit := none, asScript := true } passes)
  let after (e : Ending) : Act Unit := do
    if input.isNone then act (modify fun w => { w with rest := e.rest })
  match run with
  | .ok (.ended e)   => do
    after e
    return (codeOf e.exit, e.on 1, false)
  | .ok (.endless e) => do
    after e
    if passes 1 || (e.on 1).isEmpty then act (throw .endless)
    return (codeOf (.signal 13), e.on 1, true)
  | _                => return (127, [], false)

/-! ## Where output goes -/

/-- A way out to a file or a command, and those that are open besides. -/
def findOutflow (name : Text) : Act (Option Outflow × List Outflow) := do
  let open_ := (← get).outflows
  return (open_.find? fun o => o.name == name, open_.filter fun o => o.name != name)

/-- The complaint about a file that cannot be opened. -/
def cannotOpen (name purpose : Text) (fault : PathFault) : Text :=
  text "cannot open \"" ++ name ++ '"' :: purpose ++ text " (" ++ fault.message ++ text ")"

/-- Write to a file or a command. It is opened if it is not. -/
def sayTo (outlet : Outlet) (name t : Text) : Act Unit := do
  if outlet != .command && (name == text "/dev/stdout" || name == ['-']) then say t
  else if outlet != .command && name == text "/dev/stderr" then act (Host.write 2 t)
  else
    match ← findOutflow name with
    | (some o, others) => modify fun d => { d with outflows := { o with held := t :: o.held } :: others }
    | (none, _)        => do
      match outlet with
      | .command => flushAll
      | .file    => do
        match ← act (writePath name []) with
        | none   => pure ()
        | some e => breakOff (cannotOpen name (text " for output") e)
      | .append  => do
        let there := (← act (readPath name)).toOption.getD []
        match ← act (writePath name there) with
        | none   => pure ()
        | some e => breakOff (cannotOpen name (text " for output") e)
      modify fun d => { d with outflows := ⟨name, outlet, [t]⟩ :: d.outflows }

/-- End the way to a file or a command, which gets now what was held for it. -/
def finishOutflow (o : Outflow) : Act Int := do
  match o.outlet with
  | .command => do
    let (code, _) ← runShell o.name (some o.held.reverse.flatten) fun _ => true
    return code
  | _        => do
    flushOutflow o
    return 0

/-- End the ways to all files and commands. -/
def finishOutput : Act Unit := do
  let open_ := (← get).outflows
  modify fun d => { d with outflows := [] }
  for o in open_ do
    if o.outlet != .command then discard (finishOutflow o)
  for o in open_ do
    if o.outlet == .command then discard (finishOutflow o)
  flushOutput

/-! ## Where records come from -/

/-- How much is read of the input at a time. -/
def inputBlock : Nat := 4096

/-- A source that is a text. -/
def Source.ofText (t : Text) : Source := ⟨t, false, false⟩

/-- Read a record; none if there is none left. `fuel` bounds how often more is read. -/
def takeFrom (separator : Separator) : Nat → Source → Act (Option Text × Source)
  | 0,        s => return (none, s)
  | fuel + 1, s => do
    let more := s.isInput && !(← act get).rest.isEmpty
    match takeRecord? separator (!more && !s.endless) s.atHand with
    | some (record, rest) => return (some record, { s with atHand := rest })
    | none                =>
      if more then
        let rest := (← act get).rest
        let block := match separator with
          | .pattern _ => rest.length
          | _          => max inputBlock s.atHand.length
        act (modify fun w => { w with rest := rest.drop block })
        takeFrom separator fuel { s with atHand := s.atHand ++ rest.take block }
      else
        if s.endless then act (throw .endless)
        return (none, s)

/-- The most blocks that a record has. -/
def blockLimit : Nat := 1000000

/-- Read a record from a source. -/
def takeRecord (s : Source) : Act (Option Text × Source) := do
  let separator ← recordSeparator readRe (← globalText "RS")
  spend 1
  takeFrom separator blockLimit s

/-- The source that a file is. -/
def openSource (name : Text) : Act (Except PathFault Source) := do
  if name = ['-'] ∨ name = text "/dev/stdin" then return .ok ⟨[], true, false⟩
  return (← act (readPath name)).map .ofText

/-- The name and the value of an operand that assigns. -/
def operandAssignment? (operand : Text) : Option (Text × Text) :=
  let name := operand.takeWhile fun c => c.isAlphanum || c == '_'
  match operand.drop name.length with
  | '=' :: value =>
    if name.head?.any fun c => !isAsciiDigit c then some (name, value) else none
  | _            => none

/-- The text of a value that is given from outside. -/
def resolved (value : Text) : Text :=
  match stringChars? (2 * value.length + 2) ((value.flatMap fun c => if c == '"' then text "\\\"" else [c]) ++ ['"']) with
  | some (t, _) => t
  | none        => value

/-- Open the next operand that is a file; an operand that assigns does so. `fuel` bounds their number. -/
def nextOperand : Nat → Act (Option Source)
  | 0        => return none
  | fuel + 1 => do
    let d ← get
    let count := wholePart (← globalOf (text "ARGC")).toNumber
    if (d.operand : Int) < count then
      modify fun d => { d with operand := d.operand + 1 }
      let operand ← match d.globals[text "ARGV"]? with
        | some (.table id) => do
          let k ← keyOf (.ofNat d.operand)
          let there := (d.tables[id]?).bind fun t => t.entries[k.word]?
          textOf ((there.map (·.value)).getD .unset)
        | _                => pure []
      if operand.isEmpty then nextOperand fuel
      else match operandAssignment? operand with
        | some (name, value) => do
          assign name (.ofInput (resolved value))
          nextOperand fuel
        | none               => do
          modify fun d => { d with anyFile := true }
          setGlobal "FILENAME" (.chars operand)
          setGlobal "FNR" (.number 0)
          match ← openSource operand with
          | .ok s    => return some s
          | .error e => breakOff (cannotOpen operand [] e)
    else if d.anyFile then return none
    else
      modify fun d => { d with anyFile := true }
      setGlobal "FILENAME" (.chars ['-'])
      setGlobal "FNR" (.number 0)
      return some ⟨[], true, false⟩

/-- Read the next record of the operands. `fuel` bounds how many of them are opened. -/
def nextRecord : Nat → Act (Option Text)
  | 0        => return none
  | fuel + 1 => do
    let d ← get
    if d.drained then return none
    match d.current with
    | none   => do
      match ← nextOperand ((wholePart (← globalOf (text "ARGC")).toNumber).toNat + 2) with
      | some s => do
        modify fun d => { d with current := some s }
        nextRecord fuel
      | none   => do
        modify fun d => { d with drained := true }
        return none
    | some s => do
      match ← takeRecord s with
      | (some record, s) => do
        modify fun d => { d with current := some s }
        return some record
      | (none, _)        => do
        modify fun d => { d with current := none }
        nextRecord fuel

/-- Count a record of the operands. -/
def countRecord : Act Unit := do
  setGlobal "NR" (.number ((← globalOf (text "NR")).toNumber + 1))
  setGlobal "FNR" (.number ((← globalOf (text "FNR")).toNumber + 1))

/-- The most operands. -/
def operandLimit : Nat := 100000

/-- Read the next record of the operands, and count it. -/
def readRecord : Act (Option Text) := do
  match ← nextRecord operandLimit with
  | some t => do
    countRecord
    return some t
  | none   => return none

/-- Read a record of a file or of what a command prints; none if it cannot be opened, and an empty one at its end. -/
def readInflow (inlet : Inlet) (name : Text) : Act (Option (Option Text)) := do
  let others := (← get).inflows.filter fun i => i.name != name || i.inlet != inlet
  let found ← match (← get).inflows.find? fun i => i.name == name && i.inlet == inlet with
    | some i => pure (some i)
    | none   => do
      match inlet with
      | .command => do
        flushAll
        let (code, t, endless) ← runShell name none fun channel => channel != 1
        pure (some (Inflow.mk name inlet ⟨t, false, endless⟩ code))
      | _        => do
        match ← openSource name with
        | .ok s    => pure (some (Inflow.mk name inlet s 0))
        | .error _ => pure none
  match found with
  | none   => return none
  | some i => do
    let (record, s) ← takeRecord i.source
    modify fun d => { d with inflows := { i with source := s } :: others }
    return some record

/-- Close what has a name; what comes of it. -/
def closeNamed (name : Text) : Act Int := do
  let d ← get
  let inflows := d.inflows.filter fun i => i.name == name
  let outflows := d.outflows.filter fun o => o.name == name
  modify fun d =>
    { d with inflows := d.inflows.filter fun i => i.name != name
             outflows := d.outflows.filter fun o => o.name != name }
  let mut result : Int := -1
  for i in inflows do
    result := i.code
  for o in outflows do
    result := ← finishOutflow o
  return result

end JavaMend.Host.Records
