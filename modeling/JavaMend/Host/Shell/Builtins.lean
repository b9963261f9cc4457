import JavaMend.Host.Shell.Conditions
import JavaMend.Host.Shell.Expansion
import JavaMend.Host.Shell.Reader

/-!
# `Host.Shell.Builtins` — commands of the shell itself

These commands change the shell, ask for what it knows, or print. Commands that run scripts stand elsewhere.

## Contents
- **Options.** `takeLetters`.
- **Printing.** `echoCommand`, `printfCommand`.
- **Variables.** `exportCommand`, `unsetCommand`, `localCommand`, `readCommandLine`, `getoptsCommand`.
- **The shell.** `setCommand`, `shiftCommand`, `cdCommand`, `pwdCommand`, `umaskCommand`, `aliasCommand`.
- **Signals and jobs.** `trapCommand`, `killCommand`, `waitCommand`.
- **Names of commands.** `Kind`, `kindOf`, `describe`.
- **All of them.** `plainCommands`.
-/

namespace JavaMend.Host.Shell

open JavaMend Text

/-! ## Options -/

/-- The options at the start of arguments, with their values, and the rest; letters in `valued` take a value. `fuel`
    bounds their number. -/
def takeLettersFrom (flags valued : String) : Nat → Text → List Text → Sh (Options × List Text)
  | 0,        _,      args => return ([], args)
  | fuel + 1, c :: r, args => do
    if c ∈ flags.toList then
      let (options, rest) ← takeLettersFrom flags valued fuel r args
      return ((c, []) :: options, rest)
    else if c ∈ valued.toList then
      match r, args with
      | [], []      => fail (text "No arg for -" ++ c :: text " option")
      | [], a :: as => do
        let (options, rest) ← takeLettersFrom flags valued fuel [] as
        return ((c, a) :: options, rest)
      | r,  as      => do
        let (options, rest) ← takeLettersFrom flags valued fuel [] as
        return ((c, r) :: options, rest)
    else fail (text "Illegal option -" ++ [c])
  | fuel + 1, [],     args =>
    match args with
    | ['-', '-'] :: as      => return ([], as)
    | ('-' :: c :: r) :: as => takeLettersFrom flags valued fuel (c :: r) as
    | as                    => return ([], as)

/-- The options at the start of arguments, and the rest. -/
def takeLetters (flags valued : String) (args : List Text) : Sh (Options × List Text) :=
  takeLettersFrom flags valued (args.foldl (fun n a => n + a.length + 1) 1) [] args

/-- Print to the output of a command; it fails if that is not possible. -/
def put (t : Text) : Sh Unit := do
  if !(← say t) then
    warn (((← shell).command.getD []) ++ text ": I/O error")
    setStatus 1

/-! ## Printing -/

/-- Print the arguments; escapes in them are always read. -/
def echoCommand (args : List Text) : Sh Unit := do
  setStatus 0
  match args with
  | ['-', 'n'] :: as => put (echoText (some plainEscapes) false as)
  | as               => put (echoText (some plainEscapes) true as)

/-- How formats are filled. -/
def formatStyle : FormatStyle where
  escapes := plainFormatEscapes
  argumentEscapes := plainEscapes
  amounts := double
  badSlot := fun t => t ++ text ": invalid directive"
  notNumber := fun t => t ++ text ": expected numeric value"
  notAllNumber := fun t => t ++ text ": not completely converted"
  tooGreat := fun t => t ++ text ": Numerical result out of range"
  lengths := ""
  quotes := false

/-- Print arguments in a format. -/
def printfCommand (args : List Text) : Sh Unit := do
  match (← takeLetters "" "" args).2 with
  | []           => fail (text "usage: printf format [arg ...]")
  | format :: as => do
    let (f, stop) := printFormat formatStyle format as
    for c in f.complaints.reverse do warn c
    setStatus (if f.complaints.isEmpty then 0 else 1)
    match stop with
    | some (.bad slot complete) => do
      let message := if complete then formatStyle.badSlot slot else text "missing format character"
      warn message
      put f.shown
      setStatus 2
      throw .fails
    | _                         => put f.shown

/-! ## Variables -/

/-- A value between quotes. -/
def quotedValue (t : Text) : Text := '\'' :: joinWith (text "'\"'\"'") (splitOn '\'' t) ++ ['\'']

/-- The variables in order, as commands that set them. -/
def showVariables (word : Text) (shows : Variable → Bool) : Sh Unit := do
  let vs := (← shell).bindings.filter fun e => shows e.2
  let ordered := vs.mergeSort fun a b => !before b.1 a.1
  put (ordered.flatMap fun (name, v) =>
    word ++ name ++ (v.value.map fun t => '=' :: quotedValue t).getD [] ++ ['\n'])

/-- A name with the value that is assigned to it, if there is one. -/
def splitAssigned (t : Text) : Text × Option Text :=
  let name := t.takeWhile (· != '=')
  (name, if name.length < t.length then some (t.drop (name.length + 1)) else none)

/-- Mark variables as exported, or as fixed. -/
def exportCommand (fixes : Bool) (args : List Text) : Sh Unit := do
  let (options, names) ← takeLetters "p" "" args
  setStatus 0
  if isGiven options 'p' || names.isEmpty then
    if fixes then showVariables (text "readonly ") (·.isFixed) else showVariables (text "export ") (·.isExported)
  else
    for n in names do
      let (name, value) := splitAssigned n
      match value with
      | some t => assign name t
      | none   => if !isName name then fail (name ++ text ": bad variable name")
      let v := (← binding? name).getD ⟨none, false, false⟩
      setVariable name { v with isExported := v.isExported || !fixes, isFixed := v.isFixed || fixes }

/-- Forget variables or functions. -/
def unsetCommand (args : List Text) : Sh Unit := do
  let (options, names) ← takeLetters "vf" "" args
  setStatus 0
  for n in names do
    if (options.getLast?.map (·.1)) = some 'f' then
      onShell fun s => { s with functions := dropKey n s.functions }
    else do
      if !isName n then fail (n ++ text ": bad variable name")
      unset n

/-- Remember what a variable was, so that the function around can make it its own. -/
def keepLocal (name : Text) : Sh Unit := do
  let old ← binding? name
  onShell fun s => match s.locals with
    | (scope, o) :: more => if scope.any fun e => e.1 == name then s
      else { s with locals := ((name, old) :: scope, o) :: more }
    | []                 => s

/-- Remember what the options were, so that the function around can make them its own. -/
def keepOptions : Sh Unit :=
  onShell fun s => match s.locals with
    | (scope, o) :: more => { s with locals := (scope, o.or (some s.options)) :: more }
    | []                 => s

/-- Make variables belong to the function. -/
def localCommand (args : List Text) : Sh Unit := do
  if (← shell).calls = 0 then fail (text "not in a function")
  setStatus 0
  for a in args do
    let (name, value) := splitAssigned a
    if a = ['-'] then keepOptions
    else do
      if !isName name then fail (name ++ text ": bad variable name")
      keepLocal name
      match value with
      | some t => assign name t
      | none   => pure ()

/-- Give back what variables were before the function made them its own. -/
def restoreLocals : Sh Unit := do
  match (← shell).locals with
  | []                 => return
  | (scope, o) :: more => do
    onShell fun s => { s with locals := more, options := o.getD s.options }
    for (name, old) in scope do
      match old with
      | some v => setVariable name v
      | none   => onShell fun s => { s with bindings := dropKey name s.bindings }

/-- The bits of a line that is read, with what follows it; `raw` holds if a backslash means nothing. None follows if the
    line is not ended. -/
def lineBits (raw : Bool) : Text → List Bit × Option Text
  | []             => ([], none)
  | '\n' :: r      => ([], some r)
  | '\x00' :: r    => lineBits raw r
  | '\\' :: c :: r =>
    if raw then
      let (bits, rest) := lineBits raw (c :: r)
      (.char '\\' true false :: bits, rest)
    else
      let (bits, rest) := lineBits raw r
      (if c = '\n' then .region false :: bits else .char c false true :: .region false :: bits, rest)
  | ['\\']         => (if raw then [.char '\\' true false] else [], none)
  | c :: r         =>
    let (bits, rest) := lineBits raw r
    (.char c true false :: bits, rest)

/-- Read a line of the input into variables. -/
def readLineCommand (args : List Text) : Sh Unit := do
  let (options, names) ← takeLetters "r" "p" args
  if names.isEmpty then fail (text "arg count")
  let (taken, _) ← inputOf 0
  let (bits, rest) := lineBits (isGiven options 'r') taken
  keepInput 0 taken (rest.getD [])
  let fields := splitLimited (← separators) names.length (.region false :: bits)
  for (name, i) in names.zipIdx do assign name ((fields[i]?).getD [])
  setStatus (if rest.isSome then 0 else 1)

/-- The letter of an option is in a list of letters; whether it takes a value. -/
def optionIn? (c : Char) : Text → Option Bool
  | []            => none
  | d :: ':' :: r => if d = c then some true else optionIn? c r
  | d :: r        => if d = c then some false else optionIn? c r

/-- Take the next option of the arguments. -/
def getoptsCommand (args : List Text) : Sh Unit := do
  match (← takeLetters "" "" args).2 with
  | spec :: name :: given => do
    let s ← shell
    let all := if given.isEmpty then s.params else given
    let isStale := all.length + 1 < s.optionIndex
    let index := if isStale then 1 else max s.optionIndex 1
    let position := if isStale then none else s.optionPosition
    let isQuiet := spec.head? = some ':'
    let forget : Sh Unit := unset (text "OPTARG")
    let inWord := position.bind fun n =>
      if index ≤ 1 then none else (all[index - 2]?).bind fun w => if w.length ≤ n then none else some (w.drop n)
    -- The letters that are left of an argument, and the number of the next one.
    let found : Option Text × Nat := match inWord with
      | some letters => (some letters, index)
      | none         =>
        match all[index - 1]? with
        | some ['-', '-']     => (none, index + 1)
        | some ('-' :: c :: r) => (some (c :: r), index + 1)
        | _                   => (none, index)
    let finish (letter : Char) (index : Nat) (position : Option Nat) (status : Nat) : Sh Unit := do
      setVariable (text "OPTIND") { (← binding? (text "OPTIND")).getD ⟨none, false, false⟩ with value := some (ofNat index) }
      onShell fun s => { s with optionIndex := index, optionPosition := position }
      assign name [letter]
      setStatus status
    match found with
    | (some (c :: r), next) => do
      let word := (all[next - 2]?).getD []
      let position := some (word.length - r.length)
      match optionIn? c spec with
      | none       => do
        if isQuiet then assign (text "OPTARG") [c]
        else do
          discard (write 2 (text "Illegal option -" ++ [c, '\n']))
          forget
        finish '?' next position 0
      | some false => do
        assign (text "OPTARG") []
        finish c next position 0
      | some true  => do
        if !r.isEmpty then
          assign (text "OPTARG") r
          finish c next none 0
        else match all[next - 1]? with
          | some value => do
            assign (text "OPTARG") value
            finish c (next + 1) none 0
          | none       => do
            if isQuiet then
              assign (text "OPTARG") [c]
              finish ':' next position 0
            else do
              discard (write 2 (text "No arg for -" ++ c :: text " option\n"))
              forget
              finish '?' next position 0
    | (_,             next) => finish '?' next none 1
  | _                     => fail (text "Usage: getopts optstring var [arg...]")

/-! ## The shell -/

/-- Options by name. -/
def optionNames : List (String × Char) :=
  [("errexit", 'e'), ("noglob", 'f'), ("ignoreeof", 'I'), ("interactive", 'i'), ("monitor", 'm'), ("noexec", 'n'),
   ("stdin", 's'), ("xtrace", 'x'), ("verbose", 'v'), ("vi", 'V'), ("emacs", 'E'), ("noclobber", 'C'),
   ("allexport", 'a'), ("notify", 'b'), ("nounset", 'u'), ("privileged", 'p'), ("nolog", '\x01'), ("debug", '\x02')]

/-- Set or clear an option. -/
def setOption (c : Char) (on : Bool) : Sh Unit := do
  if optionNames.any fun o => o.2 == c then
    onShell fun s => { s with options := (if on then [c] else []) ++ s.options.filter (· != c) }
  else fail (text "Illegal option -" ++ [c])

/-- Set or clear an option by its name, or show all of them. -/
def setNamedOption (name : Option Text) (on : Bool) : Sh Unit := do
  match name with
  | none      => do
    let options := (← shell).options
    let shown := optionNames.map fun (n, c) =>
      if on then padRight 16 n.toList ++ (if options.elem c then text "on" else text "off")
      else text "set " ++ (if options.elem c then '-' else '+') :: 'o' :: ' ' :: n.toList
    put (endLines (if on then text "Current option settings" :: shown else shown))
  | some name =>
    match optionNames.find? fun o => o.1.toList == name with
    | some (_, c) => setOption c on
    | none        => fail (text "Illegal option -o " ++ name)

/-- Options at the start of arguments: what is left, and whether this is set as the parameters even if nothing is. The
    letter `c` is kept aside for a shell that starts. -/
def readShellOptions (starts : Bool) : List Text → Sh (Bool × Bool × List Text)
  | []      => return (false, false, [])
  | a :: as => do
    match a with
    | ['-', '-'] => return (false, true, as)
    | ['-']      => do
      if !starts then onShell fun s => { s with options := s.options.filter fun c => c != 'x' && c != 'v' }
      return (false, false, as)
    | sign :: letters =>
      if sign != '-' && sign != '+' then return (false, false, a :: as)
      let on := sign == '-'
      let mut hasScript := false
      let mut named := 0
      for c in letters do
        if starts && c == 'c' then hasScript := true
        else if starts && c == 'l' then pure ()
        else if c == 'o' then
          setNamedOption as[named]? on
          named := named + 1
        else setOption c on
      let (more, resets, rest) ← readShellOptionsAfter named as
      return (hasScript || more, resets, rest)
    | []              => return (false, false, a :: as)
where
  /-- Options after so many arguments that have been used. -/
  readShellOptionsAfter : Nat → List Text → Sh (Bool × Bool × List Text)
    | n + 1, _ :: as => readShellOptionsAfter n as
    | _,     as      => readShellOptions starts as

/-- Set options and parameters. -/
def setCommand (args : List Text) : Sh Unit := do
  setStatus 0
  if args.isEmpty then showVariables [] fun v => v.value.isSome
  else
    let (_, resets, rest) ← readShellOptions false args
    if resets || !rest.isEmpty then
      onShell fun s => { s with params := rest, optionIndex := 1, optionPosition := none }

/-- Drop parameters. -/
def shiftCommand (args : List Text) : Sh Unit := do
  let n ← match args with
    | []     => pure 1
    | a :: _ => countArgument a
  if (← shell).params.length < n then fail (text "can't shift that many")
  onShell fun s => { s with params := s.params.drop n, optionIndex := 1, optionPosition := none }
  setStatus 0

/-- A path that leads on from another one by names, where two dots lead back. -/
def resolved (path target : Text) : Text :=
  let start := if Disk.isAbsolute target then [] else splitOn '/' path
  let names := (start ++ splitOn '/' target).foldl (fun (found : List Text) n =>
    if Disk.isIdle n then found else if n = text ".." then found.tail else n :: found) []
  '/' :: joinWith ['/'] names.reverse

/-- Go to another folder. -/
def cdCommand (args : List Text) : Sh Unit := do
  let (options, names) ← takeLetters "LP" "" args
  let s ← get
  let isBack := names.head? = some ['-']
  let target := (← match names with
    | []          => value? (text "HOME")
    | ['-'] :: _  => value? (text "OLDPWD")
    | n :: _      => pure (some n)).getD []
  let target := if target.isEmpty then ['.'] else target
  let isPhysical := (options.getLast?.map (·.1)) = some 'P'
  let path := if isPhysical then target else resolved s.shell.path target
  match s.world.disk.find s.shell.dir (pathOf path) with
  | .ok (place, .folder) => do
    let path := if isPhysical then argumentOf (Disk.placeText place) else path
    let old := s.shell.path
    onShell fun s => { s with dir := place, path := path }
    setVariable (text "OLDPWD") ⟨some old, true, false⟩
    setVariable (text "PWD") ⟨some path, true, false⟩
    setStatus 0
    if isBack then put (path ++ ['\n'])
  | _                    => fail (text "can't cd to " ++ (names.head?.getD target))

/-- Print the path of the folder. -/
def pwdCommand (args : List Text) : Sh Unit := do
  let (options, _) ← takeLetters "LP" "" args
  let s ← shell
  setStatus 0
  put ((if (options.getLast?.map (·.1)) = some 'P' then argumentOf (Disk.placeText s.dir) else s.path) ++ ['\n'])

/-- Show or set what is left out of the modes of new files. -/
def umaskCommand (args : List Text) : Sh Unit := do
  let (options, rest) ← takeLetters "S" "" args
  let mask := (← shell).mask
  setStatus 0
  match rest with
  | []     =>
    if isGiven options 'S' then
      let letters (n : Nat) : Text :=
        let allowed := 7 - n % 8
        (if allowed / 4 % 2 = 1 then ['r'] else []) ++ (if allowed / 2 % 2 = 1 then ['w'] else []) ++
          if allowed % 2 = 1 then ['x'] else []
      put (text "u=" ++ letters (mask / 64) ++ text ",g=" ++ letters (mask / 8) ++ text ",o=" ++ letters mask ++ ['\n'])
    else put (zeroPadded 4 (Nat.toDigits 8 mask) ++ ['\n'])
  | m :: _ =>
    if (m.head?.map Char.isDigit).getD false then
      if m.all isOctal && ofDigits 8 m ≤ 0o777 then onShell fun s => { s with mask := ofDigits 8 m }
      else fail (text "Illegal number: " ++ m)

/-- Show or set words that stand for texts. -/
def aliasCommand (args : List Text) : Sh Unit := do
  setStatus 0
  let shown (name value : Text) : Text := name ++ '=' :: quotedValue value ++ ['\n']
  if args.isEmpty then
    put (((← shell).aliases.mergeSort fun a b => !before b.1 a.1).flatMap fun (n, v) => shown n v)
  for a in args do
    match splitAssigned a with
    | (name, some value) => onShell fun s => { s with aliases := putKey name value s.aliases }
    | (name, none)       =>
      match (← shell).aliases.lookup name with
      | some value => put (shown name value)
      | none       => do
        discard (write 2 (text "alias: " ++ name ++ text " not found\n"))
        setStatus 1

/-- Forget words that stand for texts. -/
def unaliasCommand (args : List Text) : Sh Unit := do
  let (options, names) ← takeLetters "a" "" args
  setStatus 0
  if isGiven options 'a' then onShell fun s => { s with aliases := [] }
  for n in names do
    if ((← shell).aliases.lookup n).isSome then onShell fun s => { s with aliases := dropKey n s.aliases }
    else do
      discard (write 2 (text "unalias: " ++ n ++ text " not found\n"))
      setStatus 1

/-! ## Signals and jobs -/

/-- The greatest number of a signal. -/
def lastSignal : Nat := 64

/-- The name of a signal; 0 is the end of the shell. -/
def signalLabel (n : Nat) : Text :=
  if n = 0 then text "EXIT"
  else if n = 16 then text "16"
  else if n < 32 then (signalName? n).getD (ofNat n)
  else if n < 34 then ofNat n
  else if n = 34 then text "RTMIN"
  else if n = 64 then text "RTMAX"
  else if n < 50 then text "RTMIN+" ++ ofNat (n - 34)
  else text "RTMAX-" ++ ofNat (64 - n)

/-- The signal that a word names, by number or by name. -/
def signalOf? (least : Nat) (t : Text) : Option Nat :=
  match digitsValue? t with
  | some n => if least ≤ n ∧ n ≤ lastSignal then some n else none
  | none   => (List.range (lastSignal + 1)).find? fun n =>
    least ≤ n && (signalLabel n).map Char.toUpper == t.map Char.toUpper

/-- Show or set what is done on signals. -/
def trapCommand (args : List Text) : Sh Unit := do
  let (_, rest) ← takeLetters "" "" args
  setStatus 0
  match rest with
  | []           =>
    put (((← shell).traps.mergeSort fun a b => decide (a.1 ≤ b.1)).flatMap fun (n, action) =>
      text "trap -- " ++ quotedValue action ++ ' ' :: signalLabel n ++ ['\n'])
  | first :: more => do
    let (action, names) := if more.isEmpty then (none, [first]) else (some first, more)
    let mut ok := true
    for name in names do
      if ok then
        match signalOf? 0 name with
        | none   => do
          discard (write 2 (text "trap: " ++ name ++ text ": bad trap\n"))
          setStatus 1
          ok := false
        | some n =>
          onShell fun s => { s with traps := match action with
            | some a => if a = ['-'] then dropKey n s.traps else putKey n a s.traps
            | none   => dropKey n s.traps }

/-- Signals that do nothing if they are not expected. -/
def isHarmlessSignal (n : Nat) : Bool := n == 17 || n == 18 || n == 23 || n == 28

/-- Signals that stop a program until it is told to go on. -/
def isStopping (n : Nat) : Bool := 19 ≤ n && n ≤ 22

/-- A signal has come to the outermost shell while it was running. -/
def receive (n : Nat) : Sh Unit := do
  let traps := (← shell).traps
  match if n = 9 || n = 19 then none else traps.lookup n with
  | some action => if !action.isEmpty then onShell fun s => { s with pending := s.pending ++ [n] }
  | none        => do
    if n = 0 || isHarmlessSignal n then return
    if isStopping n then throw .endless
    throw (.dies n)

/-- Send a signal to the shell or to a job; whether there is one. -/
def sendSignal (n id : Nat) : Sh Bool := do
  if id = valuesOf.processId then
    if (← shell).depth = 0 then receive n else onWorld fun w => { w with signals := w.signals ++ [n] }
    return true
  let w ← world
  match w.jobs.find? fun j => j.id == id with
  | some j =>
    if j.ends.all fun t => Nat.blt w.clock t then do
      if n ≠ 0 && !isHarmlessSignal n && !isStopping n then
        let ended := { j with ends := some w.clock, exit := .signal n }
        onWorld fun w => { w with jobs := w.jobs.map fun k => if k.id == id then ended else k }
      return true
    else return false
  | none   => return false

/-- Send signals. -/
def killCommand (args : List Text) : Sh Unit := do
  let usage {α : Type} : Sh α := fail (text
    "Usage: kill [-s sigspec | -signum | -sigspec] [pid | job]... or\nkill -l [exitstatus]")
  let (signal, lists, rest) ← match args with
    | []                 => usage
    | ('-' :: name) :: as =>
      match signalOf? 0 name with
      | some n => pure (some n, false, as)
      | none   => do
        let (options, rest) ← takeLetters "l" "s" args
        let signal ← match given? options 's' with
          | none      => pure none
          | some name =>
            match signalOf? 0 name with
            | some n => pure (some n)
            | none   => fail (text "invalid signal number or name: " ++ name)
        pure (signal, isGiven options 'l', rest)
    | as                 => pure (none, false, as)
  let signal := if lists then signal else some (signal.getD 15)
  if (signal.isNone || rest.isEmpty) != lists then usage
  if lists then
    setStatus 0
    match rest with
    | []     => put (text "0\n" ++ endLines ((List.range lastSignal).map fun n => signalLabel (n + 1)))
    | t :: _ => do
      let n ← countArgument t
      let n := if 128 < n then n - 128 else n
      if 0 < n ∧ n ≤ lastSignal then put (signalLabel n ++ ['\n'])
      else fail (text "invalid signal number or exit status: " ++ t)
  else
    setStatus 0
    let mut missed := false
    for t in rest do
      let found ← match t with
        | '%' :: _ => fail (text "No such job: " ++ t)
        | '-' :: t => do
          discard (countArgument t)
          pure false
        | t        => do sendSignal (signal.getD 15) (← countArgument t)
      if !found then
        warn (text "No such process\n")
        missed := true
    if missed then setStatus 1

/-- What is said about a program that a signal has ended. -/
def signalMessage (n : Nat) : Text :=
  match text <$> [(1, "Hangup"), (3, "Quit"), (4, "Illegal instruction"), (5, "Trace/breakpoint trap"), (6, "Aborted"),
      (7, "Bus error"), (8, "Floating point exception"), (9, "Killed"), (10, "User defined signal 1"),
      (11, "Segmentation fault"), (12, "User defined signal 2"), (14, "Alarm clock"), (15, "Terminated"),
      (16, "Stack fault"), (24, "CPU time limit exceeded"), (25, "File size limit exceeded"),
      (26, "Virtual timer expired"), (27, "Profiling timer expired"), (29, "I/O possible"), (30, "Power failure"),
      (31, "Bad system call")].lookup n with
  | some t => t
  | none   => if 34 ≤ n then text "Real-time signal " ++ ofNat (n - 34) else text "Unknown signal " ++ ofNat n

/-- A program or a shell has ended: its status, with a message if a signal has ended it. -/
def statusOf (e : Exit) : Sh Nat := do
  match e with
  | .code n   => return n
  | .signal n => do
    if n ≠ 2 ∧ n ≠ 13 then discard (write 2 (signalMessage n ++ ['\n']))
    return 128 + n

/-- Wait for jobs to end. -/
def waitCommand (args : List Text) : Sh Unit := do
  let ended (j : Job) : Sh Unit := do
    match j.ends with
    | some t => waitUntil t
    | none   => throw .endless
  setStatus 0
  if args.isEmpty then
    for j in (← world).jobs do ended j
  for a in args do
    let n ← countArgument a
    match (← world).jobs.find? fun j => j.id == n with
    | some j => do
      ended j
      setStatus (← statusOf j.exit)
    | none   => setStatus 127

/-! ## Names of commands -/

/-- What a name of a command stands for. -/
inductive Kind where
  | keyword
  | alias (value : Text)
  | special
  | function (body : Script)
  | builtin
  | program (path : Text)
  | missing
  /-- There is something that is no program. -/
  | denied

/-- Commands of the shell that programs could stand for. -/
def regularCommands : List String :=
  ["[", "alias", "bg", "cd", "chdir", "command", "echo", "false", "fg", "getopts", "hash", "jobs", "kill", "local",
   "printf", "pwd", "read", "test", "true", "type", "ulimit", "umask", "unalias", "wait"]

/-- The folders in which programs are looked for. -/
def programFolders : Sh (List Text) := do
  return splitOn ':' ((← value? (text "PATH")).getD [])

/-- The paths at which a program may be. -/
def programPaths (name : Text) : Sh (List Text) := do
  return (← programFolders).map fun f => if f.isEmpty then name else f ++ '/' :: name

/-- The program that a name stands for. -/
def programKind (name : Text) : Sh Kind := do
  if '/' ∈ name then return .program name
  let s ← get
  let found := (← programPaths name).filterMap fun path =>
    (s.world.disk.find? s.shell.dir (pathOf path)).map fun e => (path, e.2)
  let files := found.filter fun (_, item) => item != .folder
  let ready := files.find? fun (_, item) => match item with
    | .file _ x => x
    | _         => false
  match ready, files, found with
  | some (path, _), _,              _      => return .program path
  | none,           (path, _) :: _, _      => return .program path
  | none,           [],             _ :: _ => return .denied
  | none,           [],             []     => return .missing

/-- What a name of a command stands for, when it is run. -/
def kindOf (withFunctions : Bool) (name : Text) : Sh Kind := do
  if specialCommands.any fun c => c.toList == name then return .special
  let functions := (← shell).functions
  match if withFunctions then functions.lookup name else none with
  | some body => return .function body
  | none      => if regularCommands.any fun c => c.toList == name then return .builtin else programKind name

/-- Say what a name stands for, at length or in short; whether it stands for anything. -/
def describe (long : Bool) (name : Text) : Sh Bool := do
  let s ← get
  let kind ← if keywords.any fun k => k.toList == name then pure Kind.keyword
    else match s.shell.aliases.lookup name with
      | some value => pure (.alias value)
      | none       => kindOf true name
  let line (short tail : Text) : Sh Unit := put ((if long then name ++ tail else short) ++ ['\n'])
  let missing : Sh Bool := do
    if long then put (name ++ text ": not found\n")
    return false
  match kind with
  | .keyword      => do line name (text " is a shell keyword"); return true
  | .alias value  => do line (text "alias " ++ name ++ '=' :: quotedValue value) (text " is an alias for " ++ value); return true
  | .special      => do line name (text " is a special shell builtin"); return true
  | .builtin      => do line name (text " is a shell builtin"); return true
  | .function _   => do line name (text " is a shell function"); return true
  | .program path => do
    if '/' ∈ name && (s.world.disk.find? s.shell.dir (pathOf name)).isNone then return ← missing
    line path (text " is " ++ path)
    return true
  | .missing      => missing
  | .denied       => missing

/-- Say what names stand for. -/
def typeCommand (args : List Text) : Sh Unit := do
  let mut ok := true
  setStatus 0
  for a in args do
    if !(← describe true a) then ok := false
  if !ok then setStatus 127

/-! ## All of them -/

/-- Work out a condition. -/
def testCommand (args : List Text) : Sh Unit := do setStatus (if ← condition args then 0 else 1)

/-- Commands of the shell that run no scripts. -/
def plainCommands : List (String × (List Text → Sh Unit)) :=
  [(":", fun _ => setStatus 0), ("true", fun _ => setStatus 0), ("false", fun _ => setStatus 1),
   ("echo", echoCommand), ("printf", printfCommand), ("test", testCommand),
   ("[", fun args => do
     if args.getLast? ≠ some [']'] then fail (text "missing ]")
     testCommand args.dropLast),
   ("export", exportCommand false), ("readonly", exportCommand true), ("unset", unsetCommand),
   ("local", localCommand), ("read", readLineCommand), ("getopts", getoptsCommand), ("set", setCommand),
   ("shift", shiftCommand), ("cd", cdCommand), ("chdir", cdCommand), ("pwd", pwdCommand), ("umask", umaskCommand),
   ("alias", aliasCommand), ("unalias", unaliasCommand), ("trap", trapCommand), ("kill", killCommand),
   ("wait", waitCommand), ("type", typeCommand), ("hash", fun _ => setStatus 0), ("jobs", fun _ => setStatus 0),
   ("fg", fun _ => fail (text "No current job")), ("bg", fun _ => fail (text "No current job")),
   ("ulimit", fun args => do
     setStatus 0
     if args.length ≤ 1 then put (text "unlimited\n")),
   ("times", fun _ => do
     setStatus 0
     put (text "0m0.000000s 0m0.000000s\n0m0.000000s 0m0.000000s\n"))]

end JavaMend.Host.Shell
