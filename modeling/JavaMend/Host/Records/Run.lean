import JavaMend.Host.Records.State

/-!
# `Host.Records.Run` — running programs over records

The rules of a program are tried on each record. Expressions and statements are worked off by one step function each,
which is given the means to work off those inside; so the depth of a program is bounded by a number and nothing else.

## Contents
- **Targets.** `Target`, `readTarget`, `writeTarget`.
- **Runners.** `Flow`, `Task`, `Runner`.
- **Expressions.** `patternOf`, `callFunction`, `useFeature`, `getLine`, `evalStep`.
- **Statements.** `repeatLoop`, `printed`, `execStep`; `run`.
- **Rules.** `picks`, `runRules`, `runRecords`, `runWhole`.
- **The tool.** `awk`.
-/

namespace JavaMend.Host.Records

open JavaMend Text

/-! ## Targets -/

/-- What can be assigned to. -/
inductive Target where
  | variable (name : Text)
  | field (i : Nat)
  | element (table : Nat) (key : Key)

/-- The value of a target. -/
def readTarget : Target → Act Value
  | .variable name => valueOf name
  | .field i       => fieldAt i
  | .element id k  => entryOf id k

/-- Give a target a value. -/
def writeTarget (t : Target) (v : Value) : Act Unit := match t with
  | .variable name => assign name v
  | .field i       => setField i v
  | .element id k  => setEntry id k v

/-! ## Runners -/

/-- How work goes on behind a statement. -/
inductive Flow where
  | onward
  | leave
  | again
  | giveBack (v : Value)

/-- Something to work off. -/
inductive Task where
  | expr (e : Expr)
  | stmt (s : Stmt)

/-- What comes of a task. -/
abbrev Task.Result : Task → Type
  | .expr _ => Value
  | .stmt _ => Flow

/-- How tasks are worked off. -/
abbrev Runner := (t : Task) → Act t.Result

/-- The value of an expression. -/
def Runner.eval (self : Runner) (e : Expr) : Act Value := self (.expr e)

/-- Do a statement. -/
def Runner.exec (self : Runner) (s : Stmt) : Act Flow := self (.stmt s)

/-- The text of an expression. -/
def Runner.text (self : Runner) (e : Expr) : Act Text := do textOf (← self.eval e)

/-- The number of an expression. -/
def Runner.number (self : Runner) (e : Expr) : Act Float := return (← self.eval e).toNumber

/-! ## Expressions -/

/-- An expression without the parentheses around it. -/
def Expr.bare : Expr → Expr
  | .group e => e.bare
  | e        => e

/-- The regular expression that an expression stands for. -/
def patternOf (self : Runner) (e : Expr) : Act Re := do
  match e.bare with
  | .pattern re => return re
  | e           => readRe (← self.text e)

/-- The key that expressions spell. -/
def keyFrom (self : Runner) : List Expr → Act Key
  | [e] => do keyOf (← self.eval e)
  | es  => do
    let parts ← es.mapM self.text
    return ⟨joinWith (← globalText "SUBSEP") parts, none⟩

/-- The field that an expression spells. -/
def fieldFrom (self : Runner) (e : Expr) : Act Nat := do
  let i := wholePart (← self.number e)
  if i < 0 then runFault (text "negative field index $" ++ wholeText i)
  return i.toNat
where
  /-- A whole number with its sign. -/
  wholeText (n : Int) : Text := if n < 0 then '-' :: ofNat n.natAbs else ofNat n.natAbs

/-- What an expression allows to be assigned to. -/
def targetFrom (self : Runner) : Expr → Act (Option Target)
  | .variable name     => return some (.variable name)
  | .field e           => do return some (.field (← fieldFrom self e))
  | .element table key => do
    let k ← keyFrom self key
    return some (.element (← tableOf table) k)
  | _                  => return none

/-- What an argument is passed as: a table, or what may become one, is shared. -/
def argumentSlot (self : Runner) (e : Expr) : Act Slot := do
  match e with
  | .variable name => do
    match ← slotOf name with
    | .table id      => return .table id
    | .scalar .unset => do
      let id ← newTable
      setSlot name (.table id)
      return .table id
    | .scalar v      => return .scalar v
  | e              => return .scalar (← self.eval e)

/-- How many variables calls may have that are at work at one time. -/
def depthLimit : Nat := 1004

/-- Call a function. -/
def callFunction (functions : List Function) (self : Runner) (name : Text) (args : List Expr) : Act Value := do
  match functions.find? fun f => f.name == name with
  | none   => return .unset
  | some f => do
    let slots ← args.mapM (argumentSlot self)
    let own := f.params.length
    let missing := List.replicate (own - slots.length) (Slot.scalar .unset)
    let d ← get
    if depthLimit < d.depth + max own 1 then breakOff (text "program limit exceeded: eval stack size=1024")
    set { d with locals := f.params.zip (slots ++ missing), depth := d.depth + max own 1 }
    let flow ← self.exec f.body
    modify fun now => { now with locals := d.locals, depth := d.depth }
    match flow with
    | .giveBack v => return v
    | _           => return .unset

/-- Values laid out in a format; `name` says by what. -/
def formed (name : String) (args : List Value) (showPart : Text → Act Unit) : Act Text := do
  match args with
  | []           => return []
  | form :: args => do
    let form := (← textOf form).takeWhile (· != '\x00')
    let (shown, fault) := fillForm (← convertForm) (form.length + 1) 1 form args
    let shown := shown.flatten
    spend (1 + shown.length / 64)
    match fault with
    | none             => return shown
    | some .tooFew     => do
      showPart shown
      runFault (text "not enough arguments passed to " ++ name.toList ++ text "(\"" ++ form ++ text "\")")
    | some (.unknown n) => do
      showPart shown
      runFault (text "improper conversion(number " ++ ofNat n ++ text ") in " ++ name.toList ++ text "(\"" ++ form ++
        text "\")")

/-- Replace matches in a target, or in the record; how many there are. -/
def substitute (self : Runner) (all : Bool) (pattern by_ : Expr) (target : Option Expr) : Act Value := do
  let re ← patternOf self pattern
  let put ← self.text by_
  let expr := (target.getD (.field (.number 0))).bare
  let place ← targetFrom self expr
  let whole ← match place with
    | some t => textOf =<< readTarget t
    | none   => self.text expr
  spend (1 + whole.length / 16)
  let (result, n) := if all then replaceAllMatches re put whole else match replaceFirst re put whole with
    | some t => (t, 1)
    | none   => (whole, 0)
  if n != 0 then
    match place with
    | some t => writeTarget t (.chars result)
    | none   => pure ()
  return .ofNat n

/-- Split a text into a table. -/
def splitInto (self : Runner) (e : Expr) (table : Text) (separator : Option Expr) : Act Value := do
  let whole ← self.text e
  let separator ← match separator.map Expr.bare with
    | none               => do fieldSeparator readRe (← globalText "FS")
    | some (.pattern re) => pure (Separator.pattern re)
    | some e             => do fieldSeparator readRe (← self.text e)
  spend (1 + whole.length / 16)
  let parts := fieldsOf separator whole
  let id ← tableOf table
  let entries := parts.zipIdx 1
  let filled := entries.foldl (fun t (part, i) => t.set ⟨ofNat i, some i⟩ (.ofInput part)) Table.empty
  modify fun d => { d with tables := d.tables.insert id filled }
  return .ofNat parts.length

/-- The next random number, from 0 on and below 1. -/
def nextChance : Act Float := do
  let n := ((← get).chance * 6364136223846793005 + 1442695040888963407) % Nat.pow 2 64
  modify fun d => { d with chance := n }
  return (n / Nat.pow 2 11).toFloat / (Nat.pow 2 53).toFloat

/-- Use what the language can do by itself. -/
def useFeature (self : Runner) (f : Feature) (args : List Expr) : Act Value := do
  let math (f : Float → Float) (e : Expr) : Act Value := do return .number (f (← self.number e))
  match f, args with
  | .length,  []                => return .ofNat (← get).record.length
  | .length,  [.variable name]  => do
    match ← slotOf name with
    | .table id => return .ofNat ((((← get).tables[id]?).map Table.size).getD 0)
    | .scalar v => return .ofNat (← textOf v).length
  | .length,  [e]               => return .ofNat (← self.text e).length
  | .substr,  [e, b]            => do
    let t ← self.text e
    return .chars (substrOf t (← self.number b) none)
  | .substr,  [e, b, n]         => do
    let t ← self.text e
    let b ← self.number b
    return .chars (substrOf t b (some (← self.number n)))
  | .index,   [e, part]         => do
    let t ← self.text e
    let part ← self.text part
    return .ofNat (indexOf part 0 t)
  | .split,   [e, t]            => do
    match t.bare with
    | .variable name => splitInto self e name none
    | _              => return .unset
  | .split,   [e, t, s]         => do
    match t.bare with
    | .variable name => splitInto self e name (some s)
    | _              => return .unset
  | .sub,     [p, r]            => substitute self false p r none
  | .sub,     [p, r, t]         => substitute self false p r (some t)
  | .gsub,    [p, r]            => substitute self true p r none
  | .gsub,    [p, r, t]         => substitute self true p r (some t)
  | .locate,  [e, p]            => do
    let t ← self.text e
    let re ← patternOf self p
    spend (1 + t.length / 16)
    let (start, size) : Float × Float := match re.find? (.ofText t) 0 with
      | some hit => ((hit.start + 1).toFloat, (hit.stop - hit.start).toFloat)
      | none     => (0, -1)
    setGlobal "RSTART" (.number start)
    setGlobal "RLENGTH" (.number size)
    return .number start
  | .sprintf, args              => do
    return .chars (← formed "sprintf" (← args.mapM self.eval) fun _ => pure ())
  | .toupper, [e]               => do return .chars ((← self.text e).map Char.toUpper)
  | .tolower, [e]               => do return .chars ((← self.text e).map Char.toLower)
  | .int,     [e]               => math (fun x => if x < 0 then x.ceil else x.floor) e
  | .sqrt,    [e]               => math Float.sqrt e
  | .exp,     [e]               => math Float.exp e
  | .log,     [e]               => math Float.log e
  | .sin,     [e]               => math Float.sin e
  | .cos,     [e]               => math Float.cos e
  | .atan2,   [a, b]            => do
    let y ← self.number a
    return .number (Float.atan2 y (← self.number b))
  | .rand,    []                => return .number (← nextChance)
  | .srand,   args              => do
    let before := (← get).seed
    let seed ← match args with
      | [e] => self.eval e
      | _   => pure (.number 0)
    modify fun d => { d with seed := seed, chance := (wholePart seed.toNumber).natAbs }
    return before
  | .system,  [e]               => do
    let command ← self.text e
    flushAll
    let (code, _) ← runShell command none fun _ => true
    return .number (Float.ofInt code)
  | .close,   [e]               => do return .number (Float.ofInt (← closeNamed (← self.text e)))
  | .fflush,  [e]               => do
    let name ← self.text e
    match ← findOutflow name with
    | (some _, _) => do
      flushAll
      return .number 0
    | (none, _)   =>
      if name == text "/dev/stdout" then
        flushOutput
        return .number 0
      else return .number (-1)
  | .fflush,  _                 => do
    flushOutput
    return .number 0
  | _,        _                 => return .unset

/-- Read a line; 1 if there was one, 0 if not, and -1 if nothing can be read there. -/
def getLine (self : Runner) (inlet : Inlet) (source target : Option Expr) : Act Value := do
  let name ← match source with
    | some e => self.text e
    | none   => pure []
  let place ← match target with
    | some e => targetFrom self e
    | none   => pure none
  let found ← match inlet with
    | .records => do pure (some (← readRecord))
    | inlet    => readInflow inlet name
  match found with
  | none               => return .number (-1)
  | some none          => return .number 0
  | some (some record) => do
    match place with
    | some t => writeTarget t (.ofInput record)
    | none   => setRecord record
    return .number 1

/-- Change a target by an operation, or give it a value. -/
def assignTo (self : Runner) (op : Option Binary) (target value : Expr) : Act Value := do
  match ← targetFrom self target with
  | none   => return .unset
  | some t => do
    let v ← self.eval value
    let v ← match op with
      | none    => pure v
      | some op => do pure (.number (op.apply (← readTarget t).toNumber v.toNumber))
    writeTarget t v
    return v

/-- Work off an expression, with `self` for those inside. -/
def evalStep (functions : List Function) (self : Runner) (e : Expr) : Act Value := do
  spend 1
  match e with
  | .number x              => return .number x
  | .chars t               => return .chars t
  | .pattern re            => do
    let t := (← get).record
    spend (1 + t.length / 16)
    return .ofBool (re.isIn (.ofText t))
  | .variable name         => valueOf name
  | .field n               => do fieldAt (← fieldFrom self n)
  | .element table key     => do
    let k ← keyFrom self key
    entryOf (← tableOf table) k
  | .assign op t v         => assignTo self op t v
  | .count after delta t   => do
    match ← targetFrom self t with
    | none   => return .unset
    | some t => do
      let x := (← readTarget t).toNumber
      writeTarget t (.number (x + delta))
      return .number (if after then x else x + delta)
  | .binary op a b         => do
    let x ← self.number a
    return .number (op.apply x (← self.number b))
  | .negate a              => return .number (-(← self.number a))
  | .plus a                => return .number (← self.number a)
  | .not a                 => return .ofBool (!(← self.eval a).holds)
  | .both a b              =>
    if (← self.eval a).holds then return .ofBool (← self.eval b).holds else return .ofBool false
  | .either a b            =>
    if (← self.eval a).holds then return .ofBool true else return .ofBool (← self.eval b).holds
  | .choose c a b          => if (← self.eval c).holds then self.eval a else self.eval b
  | .matches negated a b   => do
    let t ← self.text a
    let re ← patternOf self b
    spend (1 + t.length / 16)
    return .ofBool (re.isIn (.ofText t) != negated)
  | .isIn key table        => do
    let k ← keyFrom self key
    return .ofBool (← hasEntry (← tableOf table) k)
  | .join a b              => do
    let s ← self.text a
    let t := s ++ (← self.text b)
    spend (t.length / 16)
    return .chars t
  | .compare c a b         => do
    let x ← self.eval a
    let y ← self.eval b
    return .ofBool (c.holds (x.compare (← convertForm) y))
  | .call name args        => callFunction functions self name args
  | .feature f args        => useFeature self f args
  | .getline inlet s t     => getLine self inlet s t
  | .group a               => self.eval a
  | .several es            => do
    let k ← keyFrom self es
    return .chars k.word

/-! ## Statements -/

/-- Repeat a body while a condition holds, with a step behind each time. `fuel` bounds the rounds. -/
def repeatLoop (holds : Act Bool) (body : Act Flow) (step : Act Unit) : Nat → Act Flow
  | 0        => act (throw .endless)
  | fuel + 1 => do
    spend 1
    if ← holds then
      match ← body with
      | .leave      => return .onward
      | .giveBack v => return .giveBack v
      | _           => do
        step
        repeatLoop holds body step fuel
    else return .onward

/-- How much may be done. -/
def workLimit : Nat := 3000000

/-- Do statements one after the other. -/
def execAll (self : Runner) : List Stmt → Act Flow
  | []      => return .onward
  | s :: ss => do
    match ← self.exec s with
    | .onward => execAll self ss
    | flow    => return flow

/-- Do something for each key. -/
def eachKey (self : Runner) (name : Text) (body : Stmt) : List Text → Act Flow
  | []      => return .onward
  | k :: ks => do
    assign name (.ofInput k)
    match ← self.exec body with
    | .leave      => return .onward
    | .giveBack v => return .giveBack v
    | _           => eachKey self name body ks

/-- What is printed: the values, or the record. -/
def printed (self : Runner) (args : List Expr) : Act Text := do
  let ended ← globalText "ORS"
  if args.isEmpty then return (← get).record ++ ended
  let values ← args.mapM self.eval
  let form := (← globalOf (text "OFMT")).toText (text "%.6g")
  return joinWith (← globalText "OFS") (values.map fun v => v.toText form) ++ ended

/-- Where output goes that has such an outlet. -/
def outletOf (self : Runner) (outlet : Option (Outlet × Expr)) : Act (Text → Act Unit) := do
  match outlet with
  | none        => return say
  | some (o, e) => do
    let name ← self.text e
    return sayTo o name

/-- Work off a statement, with `self` for those inside. -/
def execStep (self : Runner) (s : Stmt) : Act Flow := do
  spend 1
  match s with
  | .expr e                  => do
    discard (self.eval e)
    return .onward
  | .print args outlet       => do
    let t ← printed self args
    spend (t.length / 64)
    (← outletOf self outlet) t
    return .onward
  | .printf args outlet      => do
    let values ← args.mapM self.eval
    let out ← outletOf self outlet
    out (← formed "printf" values out)
    return .onward
  | .cond c yes no           => do
    if (← self.eval c).holds then self.exec yes
    else match no with
      | some s => self.exec s
      | none   => return .onward
  | .loop c body             => repeatLoop (return (← self.eval c).holds) (self.exec body) (pure ()) workLimit
  | .loopAfter body c        => do
    match ← self.exec body with
    | .leave      => return .onward
    | .giveBack v => return .giveBack v
    | _           => repeatLoop (return (← self.eval c).holds) (self.exec body) (pure ()) workLimit
  | .forLoop start c step body => do
    match start with
    | some s => discard (self.exec s)
    | none   => pure ()
    let holds : Act Bool := do
      match c with
      | some c => return (← self.eval c).holds
      | none   => return true
    let onward : Act Unit := do
      match step with
      | some s => discard (self.exec s)
      | none   => pure ()
    repeatLoop holds (self.exec body) onward workLimit
  | .each name table body    => do
    let id ← tableOf table
    eachKey self name body ((((← get).tables[id]?).map Table.keys).getD [])
  | .block ss                => execAll self ss
  | .next                    => throw .next
  | .nextFile                => throw .nextFile
  | .exit code               => do
    match code with
    | some e => do
      let n := wholePart (← self.number e)
      act (setCode (n % 256).toNat)
    | none   => pure ()
    throw .exit
  | .giveBack e              => do
    match e with
    | some e => return .giveBack (← self.eval e)
    | none   => return .giveBack .unset
  | .delete table key        => do
    match key with
    | some key => do
      let k ← keyFrom self key
      let id ← tableOf table
      modify fun d => { d with tables := d.tables.modify id fun t => t.erase k }
    | none     => do
      let id ← tableOf table
      modify fun d => { d with tables := d.tables.insert id .empty }
    return .onward
  | .leave                   => return .leave
  | .again                   => return .again
  | .nothing                 => return .onward

/-- Work off a task. `fuel` bounds how deep tasks stand in one another. -/
def run (functions : List Function) : Nat → Runner
  | 0,        _       => act (throw .endless)
  | fuel + 1, .expr e => evalStep functions (run functions fuel) e
  | fuel + 1, .stmt s => execStep (run functions fuel) s

/-! ## Rules -/

/-- How deep tasks may stand in one another. -/
def nestingLimit : Nat := 40000

/-- Do the rules that have a selection; false if the program is to end. -/
def runEnds (p : Program) (isMeant : Selection → Bool) : Act Bool := do
  let run := run p.functions nestingLimit
  for rule in p.rules do
    if isMeant rule.selection then
      let halted ← ExceptT.lift (ExceptT.run (run.exec rule.action))
      match halted with
      | .error .exit => return false
      | _            => pure ()
  return true

/-- The rule with a number is for the record at hand. -/
def picks (run : Runner) (i : Nat) : Selection → Act Bool
  | .all       => return true
  | .those e   => return (← run.eval e).holds
  | .range a b => do
    let isOpen := ((← get).within[i]?).getD false
    let opens ← if isOpen then pure true else do pure (← run.eval a).holds
    if opens then
      let closes := (← run.eval b).holds
      modify fun d => { d with within := d.within.set! i (!closes) }
    return opens
  | _          => return false

/-- Do the rules for the record at hand. -/
def runRules (run : Runner) (rules : List (Rule × Nat)) : Act Unit := do
  for (rule, i) in rules do
    if ← picks run i rule.selection then discard (run.exec rule.action)

/-- Do the rules for each record; false if the program is to end. `fuel` bounds the records. -/
def runRecords (run : Runner) (rules : List (Rule × Nat)) : Nat → Act Bool
  | 0        => act (throw .endless)
  | fuel + 1 => do
    spend 1
    match ← readRecord with
    | none        => return true
    | some record => do
      setRecord record
      let halted ← ExceptT.lift (ExceptT.run (runRules run rules))
      modify fun d => { d with locals := [], depth := 0 }
      match halted with
      | .error .exit     => return false
      | .error .nextFile => do
        modify fun d => { d with current := none }
        runRecords run rules fuel
      | _                => runRecords run rules fuel

/-- Run a program from its start to its end. -/
def runWhole (p : Program) : Act Unit := do
  let isStart (s : Selection) : Bool := match s with
    | .start => true
    | _      => false
  let isStop (s : Selection) : Bool := match s with
    | .stop => true
    | _     => false
  let isMain := p.rules.any fun r => !isStart r.selection
  let hasRecords := p.rules.any fun r => !isStart r.selection && !isStop r.selection
  let rules := if hasRecords then p.rules.zipIdx else []
  let goesOn ← runEnds p isStart
  if goesOn && isMain then discard (runRecords (run p.functions nestingLimit) rules workLimit)
  modify fun d => { d with locals := [], depth := 0 }
  discard (runEnds p isStop)
  finishOutput

/-! ## The tool -/

/-- The options with their values before the operands, and these. -/
def takeFlags : List Text → Job (List (Char × Text) × List Text)
  | []      => return ([], [])
  | a :: as => do
    match a with
    | ['-', '-']    => return ([], as)
    | '-' :: c :: r =>
      if c ∈ ['F', 'v', 'f', 'W'] then
        match r, as with
        | [], v :: as => do
          let (more, operands) ← takeFlags as
          return ((c, v) :: more, operands)
        | [], []      => do
          blame (text "option -" ++ c :: text " lacks argument")
          quit 2
        | v,  as      => do
          let (more, operands) ← takeFlags as
          return ((c, v) :: more, operands)
      else do
        blame (text "not an option: " ++ a)
        quit 2
    | _             => return ([], a :: as)

/-- The state at the start. -/
def startDesk (rules : Nat) : Desk :=
  { globals := ∅, locals := [], tables := ∅, nextTable := 0, record := [], fields := #[], operand := 1, current := none
    anyFile := false, drained := false, inflows := [], outflows := [], held := [], heldSize := 0
    within := Array.replicate rules false, patterns := ∅, chance := 42, seed := .number 0, depth := 0, budget := workLimit }

/-- Give the variables of the language their values, and those that options set. -/
def prepare (flags : List (Char × Text)) (name : Text) (operands : List Text) : Act Unit := do
  let texts := [("FS", " "), ("OFS", " "), ("RS", "\n"), ("ORS", "\n"), ("SUBSEP", "\x1c"), ("CONVFMT", "%.6g"),
    ("OFMT", "%.6g"), ("FILENAME", "")]
  for (name, value) in texts do
    setGlobal name (.chars value.toList)
  for name in ["NR", "FNR", "NF", "RSTART"] do
    setGlobal name (.number 0)
  setGlobal "RLENGTH" (.number (-1))
  let argv := (name :: operands).zipIdx.map fun (a, i) => (Key.mk (ofNat i) (some i), Value.ofInput a)
  setGlobalTable "ARGV" argv
  setGlobal "ARGC" (.ofNat argv.length)
  let env := (← act read).env
  setGlobalTable "ENVIRON" (env.map fun (name, value) => (Key.mk name none, Value.ofInput value))
  for (c, value) in flags do
    if c == 'F' then setGlobal "FS" (.chars (resolved value))
    else if c == 'v' then
      match operandAssignment? value with
      | some (name, value) => assign name (.ofInput (resolved value))
      | none               => do
        act (blame (text "improper assignment: -v " ++ value))
        act (quit 2)

/-- Read the source of a program: files that options name, or the first operand. -/
def readSourceText (flags : List (Char × Text)) (operands : List Text) : Job (Text × List Text) := do
  let files := flags.filter fun f => f.1 == 'f'
  if files.isEmpty then
    match operands with
    | source :: operands => return (source, operands)
    | []                 => do
      complain (text "Usage: mawk [Options] [Program] [file ...]")
      quit 2
  else do
    let mut sources := []
    for (_, file) in files do
      match ← readSource file with
      | .ok t    => sources := t :: sources
      | .error e => quitWith 2 (cannotOpen file [] e)
    return (joinWith ['\n'] sources.reverse, operands)

/-- Run a program over records. -/
def awk : Tool := fun s args => Job.run s (job args) id
where
  /-- The job of the tool. -/
  job (args : List Text) : Job Unit := do
    let (flags, operands) ← takeFlags args
    let (source, operands) ← readSourceText flags operands
    match readProgram source with
    | .error complaint => quitWith 2 complaint
    | .ok p            => do
      let work : Act Unit := do
        prepare flags (← act read).name operands
        runWhole p
      discard ((ExceptT.run work).run (startDesk p.rules.length))

end JavaMend.Host.Records
