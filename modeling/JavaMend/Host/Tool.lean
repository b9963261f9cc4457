import JavaMend.Host.Command

/-!
# `Host.Tool` — the programs of a host

A tool is a program that the host has by itself. It is written as a job: a row of steps that read, write and change the
disk, and that may end early.

## Contents
- **Tools.** `Scene`, `Tool`.
- **Jobs.** `Work`, `Job`; `print`, `complain`, `blame`, `setCode`, `quit`; `Job.tool`, `Job.prompt`.
- **Input and files.** `takeInput`, `leaveInput`, `readPath`, `readSource`, `readSources`, `writePath`.
- **Names in messages.** `quoted`, `ticked`, `shown`.
- **The disk and other programs.** `change`, `runCommand`, `runProgram`, `captureProgram`.
- **Lines.** `keptLines`, `bareLines`, `endLines`.
-/

namespace JavaMend.Host

open JavaMend Text

/-! ## Tools -/

/-- Where a tool starts: what it can use and read. -/
structure Scene where
  /-- The name that it is called by. -/
  name : Text
  /-- How other programs are run. -/
  launch : Launcher
  disk : Disk
  dir : Place
  input : Text
  seekable : Bool
  env : Environment
  channels : List Nat
  limit : Option Nat

/-- A program that the host has by itself. -/
abbrev Tool := Scene → List Text → Run

/-! ## Jobs -/

/-- What a tool has done so far. -/
structure Work where
  exit : Exit
  /-- What it wrote, with the channels, the latest first. -/
  said : List (Nat × Text)
  rest : Text
  elapsed : Nat
  disk : Disk

/-- Why a job ends early. -/
inductive Stop where
  | quits
  /-- It would go on forever. -/
  | endless

/-- Steps of a tool. -/
abbrev Job := ReaderT Scene (ExceptT Stop (StateM Work))

/-- Write to a channel. -/
def write (channel : Nat) (t : Text) : Job Unit :=
  if t.isEmpty then return else modify fun w => { w with said := (channel, t) :: w.said }

/-- Write to the output. -/
def print (t : Text) : Job Unit := write 1 t

/-- End with a code, if nothing else happens. -/
def setCode (n : Nat) : Job Unit := modify fun w => { w with exit := .code n }

/-- Write a line to the channel for errors. -/
def complain (line : Text) : Job Unit := write 2 (line ++ ['\n'])

/-- Complain in the name of the tool. -/
def blame (complaint : Text) : Job Unit := do complain ((← read).name ++ text ": " ++ complaint)

/-- End now with a code. -/
def quit {α : Type} (n : Nat) : Job α := do
  setCode n
  throw .quits

/-- Complain in the name of the tool and end now. -/
def quitWith {α : Type} (n : Nat) (complaint : Text) : Job α := do
  blame complaint
  quit n

/-- The disk as it is now. -/
def diskNow : Job Disk := return (← get).disk

/-- What a job leaves. -/
def Job.run (s : Scene) (j : Job Unit) (order : List (Nat × Text) → List (Nat × Text)) : Run :=
  let start : Work := ⟨.code 0, [], s.input, 0, s.disk⟩
  let (result, w) := Id.run (StateT.run (ExceptT.run (ReaderT.run j s)) start)
  let ending : Ending := ⟨w.exit, order w.said.reverse, w.rest, w.elapsed, w.disk⟩
  match result with
  | .error .endless => .endless ending
  | _               => .ended ending

/-- What is written to the channel for errors goes out before the output, which is held back to the end. -/
def outputLast (written : List (Nat × Text)) : List (Nat × Text) :=
  written.filter (fun w => w.1 == 2) ++ written.filter fun w => w.1 != 2

/-- A job as a tool that holds its output back to the end. -/
def Job.tool (j : List Text → Job Unit) : Tool := fun s args => Job.run s (j args) outputLast

/-- A job as a tool that writes its output at once. -/
def Job.prompt (j : List Text → Job Unit) : Tool := fun s args => Job.run s (j args) id

/-! ## Names in messages -/

/-- A character that a command line takes as it is. -/
def isHarmless (c : Char) : Bool := c.isAlphanum || c ∈ text "%+,-./:=@_]\x7d\x7b"

/-- A name between quotes. -/
def quoted (name : Text) : Text :=
  if '\'' ∈ name then
    if name.any fun c => c ∈ text "\"$\\!" || c == Char.ofNat 0x60 then
      '\'' :: joinWith (text "'\\''") (splitOn '\'' name) ++ ['\'']
    else '"' :: name ++ ['"']
  else '\'' :: name ++ ['\'']

/-- A name between a backtick and a quote. -/
def ticked (name : Text) : Text := Char.ofNat 0x60 :: name ++ ['\'']

/-- A name, between quotes if it needs them. -/
def shown (name : Text) : Text := if name.isEmpty || !name.all isHarmless then quoted name else name

/-! ## Input and files -/

/-- Read all that is left of the input. -/
def takeInput : Job Text := do
  let t := (← get).rest
  modify fun w => { w with rest := [] }
  return t

/-- Give back what was not used of the input that was taken: all of it in a file, else what is left when `chunk` bytes
    are read at a time. -/
def leaveInput (chunk : Nat) (taken : Text) (used : Nat) : Job Unit := do
  let gone := if (← read).seekable then used else chunk * ((used + chunk - 1) / chunk)
  modify fun w => { w with rest := taken.drop gone }

/-- What stands in the file that a path leads to. -/
def readPath (path : Text) : Job (Except PathFault Text) := do
  if path = text "/dev/stdin" then return .ok (← takeInput)
  return ((← diskNow).readFile (← read).dir (pathOf path)).map ofBytes

/-- What stands in a file; a dash names the input. -/
def readSource (file : Text) : Job (Except PathFault Text) := do
  if file = ['-'] then return .ok (← takeInput) else readPath file

/-- Write a file that a path leads to, unless there is a fault. -/
def writePath (path : Text) (data : Text) : Job (Option PathFault) := do
  if path = text "/dev/stdout" ∨ path = text "/dev/stderr" then
    write (if path = text "/dev/stdout" then 1 else 2) data
    return none
  match (← diskNow).writeFile (← read).dir (pathOf path) (toBytes data) with
  | .ok d    => do
    modify fun w => { w with disk := d }
    return none
  | .error e => return some e

/-- The usual complaint about a file. -/
def aboutFile (file : Text) (fault : PathFault) : Text := shown file ++ text ": " ++ fault.message

/-- What stands in files, or in the input if none is named; `complaint` says that one cannot be read, and the code is
    then `code`. -/
def readSources (code : Nat) (complaint : Text → PathFault → Text) (files : List Text) :
    Job (List (Text × Text)) := do
  let mut contents := []
  for file in if files.isEmpty then [['-']] else files do
    match ← readSource file with
    | .ok t    => contents := (file, t) :: contents
    | .error e => do
      blame (complaint file e)
      setCode code
  return contents.reverse

/-! ## The disk and other programs -/

/-- Do something to the disk, if it can be done. -/
def change (f : Disk → Except PathFault Disk) : Job (Option PathFault) := do
  match f (← diskNow) with
  | .ok d    => do
    modify fun w => { w with disk := d }
    return none
  | .error e => return some e

/-- Let time pass. What takes longer than the scene allows never ends. -/
def takeTime (ms : Nat) : Job Unit := do
  let w ← get
  let limit := (← read).limit
  set { w with elapsed := w.elapsed + ms }
  if limit.any fun most => most ≤ w.elapsed + ms then throw .endless

/-- Run a command; what it writes to some channels is written, and what it changes is changed. -/
def runCommand (command : Command) (passes : Nat → Bool) : Job (Except LaunchFault Run) := do
  let s ← read
  let w ← get
  let left := s.limit.map (· - w.elapsed)
  let command :=
    { command with
      limit := match command.limit, left with
        | some a, some b => some (min a b)
        | a,      b      => a.or b }
  let after (e : Ending) : Job Unit := modify fun w =>
    { w with disk := e.disk, elapsed := w.elapsed + e.elapsed
             said := (e.written.filter fun x => passes x.1).reverse ++ w.said }
  match s.launch w.disk command with
  | .refused fault => return .error fault
  | .endless e     => do
    after e
    return .ok (.endless e)
  | .ended e       => do
    after e
    return .ok (.ended e)

/-- Run another program on an input; what it writes and changes is written and changed. -/
def runProgram (program : Text) (args : List Text) (input : Text) (seekable : Bool) (env : Environment)
    (limit : Option Nat) : Job (Except LaunchFault Run) := do
  let s ← read
  runCommand
    { program := program, name := program, args := args, dir := s.dir, input := input, seekable := seekable
      env := some env, channels := s.channels, asScript := true, limit := limit } fun _ => true

/-- Run another program, and take what it writes to the output. -/
def captureProgram (program name : Text) (args : List Text) : Job (Except LaunchFault Text) := do
  let s ← read
  let run ← runCommand
    { program := program, name := name, args := args, dir := s.dir, input := [], seekable := false
      env := some s.env, channels := s.channels, asScript := true, limit := none } fun channel => channel != 1
  match run with
  | .error fault       => return .error fault
  | .ok (.ended e)     => return .ok (e.on 1)
  | .ok (.endless _)   => throw .endless
  | .ok (.refused f)   => return .error f

/-! ## Lines -/

/-- The lines of a text with their ends, which are `mark`s. -/
def keptParts (mark : Char) : Text → List Text
  | []     => []
  | c :: t =>
    if c = mark then [mark] :: keptParts mark t
    else match keptParts mark t with
      | []      => [[c]]
      | l :: ls => (c :: l) :: ls

/-- The lines are the whole text. -/
theorem flatten_keptParts (mark : Char) (t : Text) : (keptParts mark t).flatten = t := by
  induction t with
  | nil => rfl
  | cons c t ih =>
    unfold keptParts
    split
    · rename_i h
      simp [ih, h]
    · split
      · rename_i h
        simpa [h] using ih
      · rename_i h
        simpa [h] using ih

/-- A line without its end. -/
def barePart (mark : Char) (line : Text) : Text := if line.getLast? = some mark then line.dropLast else line

/-- The lines of a text with their ends. -/
def keptLines (t : Text) : List Text := keptParts '\n' t

/-- The lines of a text. -/
def bareLines (t : Text) : List Text := (keptLines t).map (barePart '\n')

/-- A text of lines, all of them ended. -/
def endLines (ls : List Text) : Text := ls.flatMap fun l => l ++ ['\n']

end JavaMend.Host
