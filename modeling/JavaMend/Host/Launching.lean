import JavaMend.Host.Printing

/-!
# `Host.Launching` — tools that run other programs

A program is run with other surroundings, for no longer than some time, or once for each portion of the input.

## Contents
- **In the place of a tool.** `become`; `nice`, `nohup`, `setsid`, `stdbuf`.
- **Surroundings.** `envTool`, `printenv`, `whichTool`, `whoami`, `idTool`, `uname`.
- **Limits.** `timeout`.
- **Portions.** `InputForm`, `itemsOf`, `portions`, `xargs`.
-/

namespace JavaMend.Host

open JavaMend Text

/-! ## In the place of a tool -/

/-- The exit code for a program that does not start, and why it does not. -/
def launchReason : LaunchFault → Nat × Text
  | .notFound .missing => (127, PathFault.missing.message)
  | .notFound why      => (126, why.message)
  | .denied            => (126, text "Permission denied")
  | .notProgram        => (126, text "Exec format error")
  | .nullCharacter     => (126, text "Invalid argument")

/-- Run a program in a folder and an environment on the input of the tool, for no longer than a limit. -/
def runInside (dir : Place) (env : Environment) (limit : Option Nat) (program : Text) (args : List Text) :
    Job (Except LaunchFault Run) := do
  let s ← read
  let w ← get
  let run ← runCommand
    { program := program, name := program, args := args, dir := dir, input := w.rest, seekable := s.seekable
      env := some env, channels := s.channels, asScript := true, limit := limit } fun _ => true
  match run with
  | .ok (.ended e)   => modify fun w => { w with rest := e.rest }
  | .ok (.endless e) => modify fun w => { w with rest := e.rest }
  | _                => pure ()
  return run

/-- End as a run does; `complaint` is made about a program that does not start. -/
def endAs (complaint : Text → Text) : Except LaunchFault Run → Job Unit
  | .ok (.ended e)    => modify fun w => { w with exit := e.exit }
  | .ok (.endless _)  => throw .endless
  | .ok (.refused f)  => refuse f
  | .error f          => refuse f
where
  /-- Tell why the program does not start. -/
  refuse (f : LaunchFault) : Job Unit := do
    let (code, why) := launchReason f
    quitWith code (complaint why)

/-- Run a program in the place of the tool. -/
def become (complaint : Text → Text → Text) : List Text → Job Unit
  | []              => return
  | program :: args => do endAs (complaint program) (← runInside (← read).dir (← read).env none program args)

/-- The usual complaint about a program that does not start. -/
def failedToRun (program why : Text) : Text :=
  text "failed to run command " ++ quoted program ++ text ": " ++ why

/-- Run a program with another priority, which changes nothing here. -/
def nice : Tool := Job.prompt fun args => do
  -- A number right behind a dash is the adjustment as well.
  let args := match args with
    | ('-' :: c :: r) :: more => if isAsciiDigit c then more else ('-' :: c :: r) :: more
    | more                    => more
  let (options, operands) ← takeOptions 125
    { flags := "", valued := "n", optional := "", inOrder := true, long := [("adjustment", 'n')] } args
  match given? options 'n' with
  | some n =>
    let digits := if n.head? = some '-' ∨ n.head? = some '+' then n.drop 1 else n
    if digits.isEmpty || !digits.all isAsciiDigit then
      quitWith 125 (text "invalid adjustment " ++ quoted n)
  | none   => pure ()
  if operands.isEmpty then print (text "0\n")
  else become (fun program why => quoted program ++ text ": " ++ why) operands

/-- Run a program that goes on when nobody listens. -/
def nohup : Tool := Job.prompt fun args => do
  let (_, operands) ← takeOptions 125 ⟨"", "", "", [], true⟩ args
  if operands.isEmpty then misused 125 (text "missing operand")
  become failedToRun operands

/-- Run a program in a session of its own. -/
def setsid : Tool := Job.prompt fun args => do
  let (_, operands) ← takeOptions 1
    { flags := "cfw", valued := "", optional := "", inOrder := true
      long := [("ctty", 'c'), ("fork", 'f'), ("wait", 'w')] } args
  if operands.isEmpty then misused 1 (text "no command specified")
  become (fun program why => text "failed to execute " ++ program ++ text ": " ++ why) operands

/-- Run a program with other buffers. -/
def stdbuf : Tool := Job.prompt fun args => do
  let (options, operands) ← takeOptions 125
    { flags := "", valued := "ioe", optional := "", inOrder := true
      long := [("input", 'i'), ("output", 'o'), ("error", 'e')] } args
  if operands.isEmpty then misused 125 (text "missing operand")
  if options.isEmpty then misused 125 (text "you must specify a buffering mode option")
  become failedToRun operands

/-! ## Surroundings -/

/-- The name and the value of an argument that assigns. -/
def assigned? (t : Text) : Option (Text × Text) :=
  let name := t.takeWhile (· != '=')
  if name.length < t.length then some (name, t.drop (name.length + 1)) else none

/-- Set a variable in an environment. -/
def setVariable (env : Environment) (name value : Text) : Environment :=
  if env.any fun v => v.1 == name then env.map fun v => if v.1 == name then (name, value) else v
  else env ++ [(name, value)]

/-- How items of an input are told apart. -/
inductive InputForm where
  /-- Blanks are between them; quotes and backslashes keep blanks. -/
  | words
  /-- Each is ended by a character. -/
  | ended (c : Char)
  /-- Each is a line; blanks before it do not count. -/
  | lines

/-- An item with the number of its line. -/
abbrev InputItem := Text × Nat

/-- What is read of items so far. -/
structure ItemReading where
  items : List InputItem
  /-- The item that is read, the latest character first; none between items. -/
  word : Option Text
  /-- The number of the line. -/
  number : Nat
  /-- The last character was a blank, which joins the line with the next one. -/
  joins : Bool

/-- End the item that is read. -/
def ItemReading.finish (r : ItemReading) : ItemReading := match r.word with
  | some w => { r with items := (w.reverse, r.number) :: r.items, word := none }
  | none   => r

/-- Add to the item that is read. -/
def ItemReading.add (r : ItemReading) (t : Text) : ItemReading :=
  { r with word := some (t.reverse ++ r.word.getD []), joins := false }

/-- Read the items of a text; those before a quote that is not closed, and that quote. `fuel` bounds the characters. -/
def readItems (byLine : Bool) : Nat → ItemReading → Text → List InputItem × Option Char
  | 0,        r, _      => (r.finish.items.reverse, none)
  | _ + 1,    r, []     => (r.finish.items.reverse, none)
  | fuel + 1, r, c :: t =>
    if c = '\n' then
      let ended := r.finish
      let isLine := ended.items.head?.any fun i => i.2 == ended.number
      let number := if r.joins || !isLine then ended.number else ended.number + 1
      readItems byLine fuel { ended with number := number, joins := false } t
    else if c = ' ' ∨ c = '\t' then
      if byLine then readItems byLine fuel (if r.word.isSome then r.add [c] else r) t
      else readItems byLine fuel { r.finish with joins := true } t
    else if c = '\'' ∨ c = '"' then
      let inside := t.takeWhile fun d => d != c && d != '\n'
      match t.drop inside.length with
      | d :: rest =>
        if d = c then readItems byLine fuel (r.add inside) rest else (r.items.reverse, some c)
      | []        => (r.items.reverse, some c)
    else if c = '\\' then
      match t with
      | d :: rest => readItems byLine fuel (r.add [d]) rest
      | []        => readItems byLine fuel r []
    else readItems byLine fuel (r.add [c]) t

/-- The items of a text, and a quote that is not closed. -/
def itemsOf (form : InputForm) (t : Text) : List InputItem × Option Char :=
  let start : ItemReading := ⟨[], none, 0, false⟩
  match form with
  | .words   => readItems false (t.length + 1) start t
  | .lines   => readItems true (t.length + 1) start t
  | .ended c => ((keptParts c t).zipIdx.map fun (part, i) => (barePart c part, i), none)

/-- The options of `env`. -/
def envOptions : OptionSpec :=
  { flags := "i0v", valued := "uSC", optional := "", inOrder := true
    long := [("ignore-environment", 'i'), ("null", '0'), ("debug", 'v'), ("unset", 'u'), ("split-string", 'S'),
      ("chdir", 'C')] }

/-- Run a program with other variables, or show them. -/
def envTool : Tool := Job.prompt fun args => do
  let (options, operands) ← takeOptions 125 envOptions args
  -- Words of a text that is to be split stand in its place.
  let split := (given? options 'S').map fun t => (itemsOf .words t).1.map (·.1)
  let operands := split.getD [] ++ operands
  let fresh := isGiven options 'i' || operands.head? = some ['-']
  let operands := if operands.head? = some ['-'] then operands.drop 1 else operands
  let s ← read
  let kept := if fresh then [] else s.env
  let unset := (options.filter fun o => o.1 == 'u').map (·.2)
  let kept := kept.filter fun v => !unset.elem v.1
  let given := operands.takeWhile fun o => (assigned? o).isSome
  let env := (given.filterMap assigned?).foldl (fun env (name, value) => setVariable env name value) kept
  let command := operands.drop given.length
  let dir ← match given? options 'C' with
    | none   => pure s.dir
    | some d =>
      match (← diskNow).find s.dir (pathOf d) with
      | .ok (place, .folder) => pure place
      | .ok _                => cannotEnter d .notFolder
      | .error e             => cannotEnter d e
  match command with
  | []              =>
    let stop := if isGiven options '0' then '\x00' else '\n'
    print (env.flatMap fun (name, value) => name ++ '=' :: value ++ [stop])
  | program :: args => do
    endAs (fun why => quoted program ++ text ": " ++ why) (← runInside dir env none program args)
where
  /-- Complain about a folder. -/
  cannotEnter {α : Type} (d : Text) (e : PathFault) : Job α :=
    quitWith 125 (text "cannot change directory to " ++ quoted d ++ text ": " ++ e.message)

/-- Show variables. -/
def printenv : Tool := Job.tool fun args => do
  let (options, names) ← takeOptions 2
    { flags := "0", valued := "", optional := "", inOrder := true, long := [("null", '0')] } args
  let stop := if isGiven options '0' then '\x00' else '\n'
  let env := (← read).env
  if names.isEmpty then print (env.flatMap fun (name, value) => name ++ '=' :: value ++ [stop])
  for name in names do
    match env.lookup name with
    | some value => print (value ++ [stop])
    | none       => setCode 1

/-- Show where programs are. -/
def whichTool : Tool := Job.tool fun args => do
  let all := args.head? = some (text "-a")
  let names := if all then args.drop 1 else args
  if names.isEmpty then setCode 1
  let s ← read
  let disk ← diskNow
  let isReady (path : Text) : Bool := match disk.find? s.dir (pathOf path) with
    | some (_, .file _ x) => x
    | _                   => false
  for name in names do
    let folders := splitOn ':' ((s.env.lookup (text "PATH")).getD [])
    let paths := if '/' ∈ name then [name] else folders.map fun f => (if f.isEmpty then ['.'] else f) ++ '/' :: name
    let found := paths.filter isReady
    if found.isEmpty then setCode 1
    print (endLines (if all then found else found.take 1))

/-- Refuse operands. -/
def refuseOperands : List Text → Job Unit
  | []     => return
  | x :: _ => misused 1 (text "extra operand " ++ quoted x)

/-- Show the name of the user. -/
def whoami : Tool := Job.tool fun args => do
  let (_, operands) ← takeOptions 1 ⟨"", "", "", [], false⟩ args
  refuseOperands operands
  print (text "root\n")

/-- Show who the user is. -/
def idTool : Tool := Job.tool fun args => do
  let (options, operands) ← takeOptions 1
    { flags := "ugGnr", valued := "", optional := "", inOrder := false
      long := [("user", 'u'), ("group", 'g'), ("groups", 'G'), ("name", 'n'), ("real", 'r')] } args
  for x in operands do
    if x != text "root" && x != ['0'] then quitWith 1 (quoted x ++ text ": no such user")
  let one := isGiven options 'u' || isGiven options 'g' || isGiven options 'G'
  print (text (if !one then "uid=0(root) gid=0(root) groups=0(root)\n"
    else if isGiven options 'n' then "root\n" else "0\n"))

/-- Show what the machine is. -/
def uname : Tool := Job.tool fun args => do
  let (options, operands) ← takeOptions 1
    { flags := "smpio", valued := "", optional := "", inOrder := false
      long := [("kernel-name", 's'), ("machine", 'm'), ("operating-system", 'o')] } args
  refuseOperands operands
  let asked (c : Char) : Bool := isGiven options c
  let parts := (if asked 's' || options.isEmpty then [text "Linux"] else []) ++
    (if asked 'm' then [text "x86_64"] else []) ++ (if asked 'p' then [text "x86_64"] else []) ++
    (if asked 'i' then [text "x86_64"] else []) ++ (if asked 'o' then [text "GNU/Linux"] else [])
  print (joinWith [' '] parts ++ ['\n'])

/-! ## Limits -/

/-- The number of a signal that is named or numbered. -/
def signalNumber? (t : Text) : Option Nat :=
  if t.all isAsciiDigit then digitsValue? t
  else
    let name := t.map Char.toUpper
    let name := (dropPrefix? (text "SIG") name).getD name
    (signalNames.findIdx? fun n => n.toList == name).map (· + 1)

/-- Run a program for no longer than some time. -/
def timeout : Tool := Job.prompt fun args => do
  let (options, operands) ← takeOptions 125
    { flags := "fpv", valued := "sk", optional := "", inOrder := true
      long := [("foreground", 'f'), ("preserve-status", 'p'), ("verbose", 'v'), ("signal", 's'), ("kill-after", 'k')] } args
  let signal ← match given? options 's' with
    | none   => pure 15
    | some t =>
      match signalNumber? t with
      | some n => pure n
      | none   => misused 125 (quoted t ++ text ": invalid signal")
  match operands with
  | time :: program :: args => do
    match milliseconds? time with
    | none    => misused 125 (text "invalid time interval " ++ quoted time)
    | some ms => do
      let start := (← get).elapsed
      let s ← read
      match ← runInside s.dir s.env (if ms = 0 then none else some ms) program args with
      | .ok (.endless _) => do
        if ms = 0 then throw .endless
        modify fun w => { w with elapsed := start }
        takeTime ms
        if signal = 9 then modify fun w => { w with exit := .signal 9 }
        else setCode (if isGiven options 'p' then 128 + signal else 124)
      | run              => endAs (failedToRun program) run
  | _                       => do
    complain (text "Try '" ++ (← read).name ++ text " --help' for more information.")
    quit 125

/-! ## Portions -/

/-- How much a command may be long. -/
def commandLimit : Nat := 131072

/-- The length of arguments in a command. -/
def argumentSize (args : List Text) : Nat := args.foldl (fun n a => n + a.length + 1) 0

/-- Items in portions that are at most so many, of at most so many lines, and not too long. `fuel` bounds the items. -/
def portions (most lines : Option Nat) (room : Nat) : Nat → List InputItem → List (List Text)
  | 0,        _  => []
  | fuel + 1, is =>
    match is with
    | []             => []
    | (_, first) :: _ =>
      let taken := is.take (most.getD is.length)
      let taken := match lines with
        | some n => taken.takeWhile fun i => i.2 < first + n
        | none   => taken
      let fits := fitting room taken
      let count := max fits 1
      (is.take count).map (·.1) :: portions most lines room fuel (is.drop count)
where
  /-- How many items have room. -/
  fitting : Nat → List InputItem → Nat
    | _,    []      => 0
    | room, i :: is => if room < i.1.length + 1 then 0 else fitting (room - (i.1.length + 1)) is + 1

/-- What makes up the portions. -/
inductive Portioning where
  | all
  | items (n : Nat)
  | lines (n : Nat)
  /-- One line, put in the place of a word. -/
  | replace (word : Text)

/-- A number that an option has, from 1 on. -/
def portionNumber (c : Char) (t : Text) : Job Nat := do
  match digitsValue? t with
  | some 0 => misused 1 (text "value 0 for -" ++ c :: text " option should be >= 1")
  | some n => return n
  | none   => misused 1 (text "invalid number \"" ++ t ++ text "\" for -" ++ c :: text " option")

/-- The character that an option names to end items. -/
def delimiter? (t : Text) : Option Char :=
  match t with
  | [c]           => some c
  | ['\\', 'n']   => some '\n'
  | ['\\', 't']   => some '\t'
  | ['\\', 'r']   => some '\r'
  | ['\\', '\\']  => some '\\'
  | ['\\', 'a']   => some '\x07'
  | ['\\', 'b']   => some '\x08'
  | ['\\', 'f']   => some '\x0c'
  | ['\\', 'v']   => some '\x0b'
  | ['\\', '0']   => some '\x00'
  | '\\' :: 'x' :: h =>
    if !h.isEmpty && h.all fun c => (hexValue? c.toLower).isSome then some (Char.ofNat (ofDigits 16 (h.map Char.toLower) % 256))
    else none
  | '\\' :: o     => if !o.isEmpty && o.all isOctal then some (Char.ofNat (ofDigits 8 o % 256)) else none
  | _             => none

/-- How portions are made up by options, the last of which counts. -/
def readPortioning : Options → Portioning → Job Portioning
  | [],           p => return p
  | (c, t) :: os, p => do
    match c with
    | 'n' => do
      let n ← portionNumber c t
      match p with
      | .replace _ => readPortioning os (if n = 1 then p else .items n)
      | .lines _   => do
        blame (text "warning: options --max-lines and --max-args/-n are mutually exclusive, ignoring previous --max-lines value")
        readPortioning os (.items n)
      | _          => readPortioning os (.items n)
    | 'L' => do
      let n ← portionNumber c t
      warn p (text "-L")
      readPortioning os (.lines n)
    | 'l' => do
      let n ← if t.isEmpty then pure 1 else portionNumber c t
      warn p (text "--max-lines/-l")
      readPortioning os (.lines n)
    | 'I' => do
      warn p (text "--replace/-I/-i")
      readPortioning os (.replace t)
    | 'i' => do
      warn p (text "--replace/-I/-i")
      readPortioning os (.replace (if t.isEmpty then text "\x7b\x7d" else t))
    | _   => readPortioning os p
where
  /-- Warn that an option is of no account because of a later one. -/
  warn (p : Portioning) (later : Text) : Job Unit := do
    let earlier := match p with
      | .items _ => some (text "--max-args")
      | .lines _ => if later == text "--replace/-I/-i" then some (text "--max-lines") else none
      | _        => none
    match earlier with
    | some e => blame (text "warning: options " ++ e ++ text " and " ++ later ++
        text " are mutually exclusive, ignoring previous " ++ e ++ text " value")
    | none   => pure ()

/-- Run a program on a portion of the input. -/
def runPortion (shows : Bool) (input : Option Text) (command : List Text) : Job Unit := do
  if shows then complain (joinWith [' '] (command.map shown))
  let s ← read
  match command with
  | []              => return
  | program :: args => do
    match ← runProgram program args (input.getD []) false s.env none with
    | .error f        => fail_ program f
    | .ok run         =>
      match run with
      | .refused f => fail_ program f
      | .endless _ => throw .endless
      | .ended e   =>
        match e.exit with
        | .code 0   => return
        | .code 255 => quitWith 124 (program ++ text ": exited with status 255; aborting")
        | .code _   => setCode 123
        | .signal n => quitWith 125 (program ++ text ": terminated by signal " ++ ofNat n)
where
  /-- Tell why the program does not start. -/
  fail_ (program : Text) (f : LaunchFault) : Job Unit := do
    let (code, why) := launchReason f
    quitWith code (program ++ text ": " ++ why)

/-- The options of `xargs`. -/
def xargsOptions : OptionSpec :=
  { flags := "0rtxpo", valued := "nLIdPsaE", optional := "eil", inOrder := true
    long := [("null", '0'), ("no-run-if-empty", 'r'), ("verbose", 't'), ("exit", 'x'), ("max-args", 'n'),
      ("max-lines", 'l'), ("replace", 'i'), ("delimiter", 'd'), ("max-procs", 'P'), ("max-chars", 's'),
      ("arg-file", 'a'), ("eof", 'e'), ("interactive", 'p'), ("open-tty", 'o')] }

/-- Run a program on portions of the input. -/
def xargs : Tool := Job.prompt fun args => do
  let (options, operands) ← takeOptions 1 xargsOptions args
  let portioning ← readPortioning options .all
  for (c, t) in options do
    if c == 'P' && (digitsValue? t).isNone then
      misused 1 (text "invalid number \"" ++ t ++ text "\" for -P option")
  let room ← match given? options 's' with
    | some t => portionNumber 's' t
    | none   => pure commandLimit
  let command := if operands.isEmpty then [text "echo"] else operands
  let delimiter ← match (options.filter fun o => o.1 == 'd' || o.1 == '0').getLast? with
    | none          => pure none
    | some ('0', _) => pure (some '\x00')
    | some (_, t)   =>
      match delimiter? t with
      | some c => pure (some c)
      | none   => quitWith 1 (text "Invalid input delimiter specification " ++ t ++
          text ": the delimiter must be either a single character or an escape sequence starting with \\.")
  let source ← match given? options 'a' with
    | none      => takeInput
    | some file =>
      match ← readSource file with
      | .ok t    => pure t
      | .error e => quitWith 1 (text "Cannot open input file " ++ quoted file ++ text ": " ++ e.message)
  let form := match delimiter, portioning with
    | some c, _          => InputForm.ended c
    | none,   .replace _ => .lines
    | none,   _          => .words
  let (items, open_) := itemsOf form source
  let last := (options.filter fun o => (o.1 == 'E' || o.1 == 'e') && !o.2.isEmpty).getLast?
  let items := match last with
    | some (_, stop) => items.takeWhile fun i => i.1 != stop
    | none           => items
  let shows := isGiven options 't'
  let left := room - argumentSize command
  let own ← if isGiven options 'a' then do pure (some (← get).rest) else pure none
  match portioning with
  | .replace word =>
    for (item, _) in items do
      runPortion shows own (command.map (replaceAll word item))
  | p             =>
    let most := match p with
      | .items n => some n
      | _        => none
    let lines := match p with
      | .lines n => some n
      | _        => none
    if items.isEmpty && open_.isNone && !isGiven options 'r' then runPortion shows own command
    for part in portions most lines left (items.length + 1) items do
      runPortion shows own (command ++ part)
  match open_ with
  | some c => quitWith 1 (text "unmatched " ++ text (if c == '"' then "double" else "single") ++
      text " quote; by default quotes are special to xargs unless you use the -0 option")
  | none   => return

end JavaMend.Host
