import JavaMend.Host.Shell.Builtins

/-!
# `Host.Shell.Run` — running scripts

A script is run command by command. The parts of a pipe are run one after the other, each on what the one before wrote,
and their time is that of the slowest. A shell in parentheses runs on a copy of the shell. What runs in the background
runs at once, and its time counts when it is waited for.

## Contents
- **Redirections.** `Opening`, `openAs`, `restoreChannels`.
- **Programs.** `launchProgram`, `settle`.
- **Commands.** `atLine`, `checkExit`, `Plan`, `planOf`, `runProgram`.
- **Scripts.** `Runner`, `Runner.runSimple`, `Runner.inSubshell`, `Runner.capture`, `Runner.step`; `run`.
- **Shells.** `shellTool`.
-/

namespace JavaMend.Host.Shell

open JavaMend Text

/-! ## Redirections -/

/-- A redirection whose words are expanded. -/
inductive Opening where
  | file (use : FileUse) (path : Text)
  | copy (source : Nat)
  | close
  | document (t : Text)

/-- The wording of a fault, for a file that should be there or should be made. -/
def openFault (creates : Bool) (path : Text) (fault : PathFault) : Text :=
  (if creates then text "cannot create " else text "cannot open ") ++ path ++ text ": " ++
    match fault with
    | .missing   => if creates then text "Directory nonexistent" else text "No such file"
    | .notFolder => if creates then text "Directory nonexistent" else text "No such file"
    | fault      => fault.message

/-- The channel that a path of a device stands for. -/
def deviceChannel? (path : Text) : Option Nat :=
  if path = text "/dev/stdin" then some 0
  else if path = text "/dev/stdout" then some 1
  else if path = text "/dev/stderr" then some 2
  else match dropPrefix? (text "/dev/fd/") path with
    | some [c] => if c.isDigit then some (digitValue c) else none
    | _        => none

/-- Let a channel lead where another one leads. -/
def copyChannel (channel source : Nat) : Sh Unit := do
  if channel = source then return
  match ← streamId? source with
  | some id => setChannel channel id
  | none    => fail (ofNat source ++ text ": Bad file descriptor")

/-- Open a file for a channel. -/
def openFile (channel : Nat) (use : FileUse) (path : Text) : Sh Unit := do
  match deviceChannel? path with
  | some source => copyChannel channel source
  | none        => do
    let s ← get
    let d := s.world.disk
    let creates := use != .read
    let refuse (fault : PathFault) : Sh Unit := fail (openFault creates path fault)
    let found := d.find s.shell.dir (pathOf path)
    let start (stream : Stream) : Sh Unit := do setChannel channel (← openStream stream)
    match found with
    | .ok (place, .file data x) => do
      if use = .write && s.shell.options.elem 'C' then refuse .taken
      if use = .write || use = .overwrite then
        onWorld fun w => { w with disk := w.disk.put place (.file [] x) }
      start (.file place (if use = .append then data.length else 0) use)
    | .ok (_, .device .null)    => start .null
    | .ok (_, .device .full)    => start .full
    | .ok (_, .folder)          => if creates then refuse .isFolder else start (.source [] true)
    | .ok (_, .link _)          => refuse .looping
    | .error .missing           =>
      if !creates then refuse .missing
      else match d.writeFile s.shell.dir (pathOf path) [], d.locate s.shell.dir (pathOf path) with
        | .ok d,    .ok place => do
          onWorld fun w => { w with disk := d }
          start (.file place 0 use)
        | .error e, _         => refuse e
        | _,        .error e  => refuse e
    | .error e                  => refuse e

/-- Let a channel lead where a redirection says. -/
def openAs (channel : Nat) : Opening → Sh Unit
  | .file use path => openFile channel use path
  | .copy source   => copyChannel channel source
  | .close         => closeChannel channel
  | .document t    => do setChannel channel (← openStream (.source t false))

/-- Let channels lead again where they led before, and forget the streams that were made since `start`. -/
def restoreChannels (changed : List Nat) (old : List (Nat × Nat)) (start : Nat) : Sh Unit := do
  for channel in changed do
    match old.lookup channel with
    | some id => setChannel channel id
    | none    => closeChannel channel
  dropStreams start

/-- The channel of a redirection. -/
def Redirect.channel : Redirect → Nat
  | .file c _ _   => c
  | .copy c _     => c
  | .document c _ => c

/-- Expand the words of a redirection. -/
def expandRedirect (output : Script → Sh Text) : Redirect → Sh Opening
  | .file _ use target => do return .file use (← expandText output target)
  | .copy _ source     => do
    match ← expandWord output source with
    | []           => fail (text "redir error")
    | ['-'] :: _   => return .close
    | [c] :: _     => if c.isDigit then return .copy (digitValue c) else fail (text "Bad fd number: " ++ [c])
    | t :: _       => fail (text "Bad fd number: " ++ t)
  | .document _ id     => do
    return .document (← expandDocument output (((← world).documents.lookup id).getD []))

/-- Redirect channels; all words are expanded first. -/
def redirect (output : Script → Sh Text) (rs : List Redirect) : Sh Unit := do
  for (channel, o) in ← rs.mapM (fun r => do return (r.channel, ← expandRedirect output r)) do openAs channel o

/-! ## Programs -/

/-- Why a program did not start: the status and what is complained about. -/
def launchFault (fault : LaunchFault) : Nat × Text :=
  match fault with
  | .notFound .missing   => (127, text "not found")
  | .notFound .notFolder => (127, text "not found")
  | .notFound .looping   => (127, PathFault.looping.message)
  | .notFound .tooLong   => (127, PathFault.tooLong.message)
  | .notFound fault      => (126, fault.message)
  | .denied              => (126, text "Permission denied")
  | .notProgram          => (126, text "Exec format error")
  | .nullCharacter       => (126, text "Invalid argument")

/-- Run a program on the channels of the shell. -/
def launchProgram (path name : Text) (args : List Text) : Sh (Except LaunchFault Exit) := do
  let s ← get
  let (taken, seekable) ← inputOf 0
  let outputs := s.shell.channels.filterMap fun (c, _) => if c = 0 then none else some c
  let command : Command :=
    { program := path, name := name, args := args, dir := s.shell.dir, input := taken, seekable := seekable
      env := some (← exported), channels := outputs, asScript := true
      limit := s.world.limit.map fun most => most - s.world.clock / 1000 }
  let after (e : Ending) : Sh Exit := do
    onWorld fun w => { w with disk := e.disk }
    keepInput 0 taken e.rest
    let mut fault : Option WriteFault := none
    for (channel, t) in e.written do
      spendSome (t.length / 64)
      let found ← write channel t
      if channel = 1 then fault := fault.or found
    match fault with
    | none   => return e.exit
    | some f => do
      discard (write 2 (name ++ text ": write error: " ++ f.message ++ ['\n']))
      return if e.exit = .code 0 then .code 1 else e.exit
  match s.world.launch s.world.disk command with
  | .refused fault => return .error fault
  | .endless e     => do
    discard (after e)
    throw .endless
  | .ended e       => do
    let exit ← after e
    passTime (e.elapsed * 1000 + startTime)
    return .ok exit
where
  /-- How long it takes to start a program, in microseconds. -/
  startTime : Nat := 500

/-! ## Commands -/

/-- The command stands in this line. -/
def atLine (line : Nat) : Sh Unit :=
  onShell fun s => { s with line := line }

/-- End the shell if a command has failed and this is asked for. -/
def checkExit (tested : Bool) : Sh Unit := do
  let s ← shell
  if s.status ≠ 0 && !tested && s.options.elem 'e' then throw .exits

/-- Do something, then something else in any case. -/
def ensuring {α : Type} (a : Sh α) (after : Sh Unit) : Sh α := do
  let r ← attempt a
  after
  match r with
  | .ok x    => return x
  | .error e => throw e

/-- Do something while a command complains. -/
def asCommand {α : Type} (name : Text) (a : Sh α) : Sh α := do
  let old := (← shell).command
  onShell fun s => { s with command := some name }
  ensuring a (onShell fun s => { s with command := old })

/-- Commands that are run with part of the steps that are left: what remains goes to those after them. -/
def withShare {α : Type} (a : Sh α) : Sh α := do
  let all := (← world).steps
  onWorld fun w => { w with steps := all / 2 }
  ensuring a (onWorld fun w => { w with steps := all - all / 2 + w.steps })

/-- Wait for the jobs that can still write to a stream. -/
def awaitHolders (id : Nat) : Sh Unit := do
  for j in (← world).jobs do
    if j.holds.elem id then
      match j.ends with
      | some t => waitUntil t
      | none   => throw .endless

/-- The functions may call one another to this depth. -/
def callLimit : Nat := 400

/-! ## Simple commands -/

/-- What a simple command stands for. -/
structure Plan where
  /-- Its words, expanded. -/
  args : List Text
  /-- What is to be run: the words without a `command` before them; nothing if that only asks. -/
  target : List Text
  /-- There is no `command`. -/
  isPlain : Bool
  kind : Kind

/-- It is a special command. -/
def Plan.isSpecial (p : Plan) : Bool := p.isPlain && !p.target.isEmpty && match p.kind with
  | .special => true
  | _        => false

/-- Its assignments stay. -/
def Plan.isLasting (p : Plan) : Bool := p.args.isEmpty || p.isSpecial

/-- It takes the place of the shell, or redirects it. -/
def Plan.isExec (p : Plan) : Bool := p.target.head? == some (text "exec") && match p.kind with
  | .special => true
  | _        => false

/-- The shell ends when it complains. -/
def Plan.endsShell (p : Plan) : Bool := match p.kind with
  | .builtin       => false
  | .special       => p.isPlain
  | _              => !p.args.isEmpty || p.isPlain

/-- Options of `command`: whether it asks what a name stands for, in short or at length, and the rest. -/
def commandArguments (args : List Text) : Sh (Option Bool × List Text) := do
  let (options, rest) ← takeLetters "pvV" "" args
  return (if isGiven options 'v' then some false else if isGiven options 'V' then some true else none, rest)

/-- What is to be run behind `command`; nothing if that only asks. `fuel` bounds how often it is repeated. -/
def behindCommand : Nat → List Text → Sh (List Text)
  | 0,        _    => return []
  | fuel + 1, args =>
    if args.head? ≠ some (text "command") then return args
    else do
      match ← commandArguments args.tail with
      | (none, rest) => behindCommand fuel rest
      | _            => return []

/-- Names of commands whose arguments may be assignments. -/
def assigningCommands : List String := ["export", "readonly", "local", "alias"]

/-- Expand the words of a simple command, and find what it stands for. -/
def planOf (output : Script → Sh Text) (words : List Word) : Sh Plan := do
  let functions := (← shell).functions
  let isAsked (args : List Text) : Bool :=
    args.head? == some (text "command") && (functions.lookup (text "command")).isNone
  let mut args : List Text := []
  for w in words do
    let name? := (args.dropWhile fun a => isAsked [a]).head?
    let assigns := name?.any fun n => assigningCommands.any fun c => c.toList == n
    args := args ++ (← if assigns then expandAssigned output w else expandWord output w)
  if !isAsked args then
    match args with
    | []     => return ⟨[], [], true, .special⟩
    | n :: _ => return ⟨args, args, true, ← kindOf true n⟩
  match ← attempt (asCommand (text "command") (behindCommand 20 args)) with
  | .ok (n :: rest) => return ⟨args, n :: rest, false, ← kindOf false n⟩
  | _               => return ⟨args, [], false, .builtin⟩

/-- Assign what stands before a simple command; the values. -/
def assignFor (output : Script → Sh Text) (p : Plan) (assigned : List (Text × Word)) : Sh (List (Text × Text)) := do
  let mut found : List (Text × Text) := []
  for (name, word) in assigned do
    let value ← expandValue output word
    if !p.isLasting then keepLocal name
    assign name value
    if !p.isLasting || (p.isExec && 1 < p.target.length) then
      setVariable name { (← binding? name).getD ⟨none, false, false⟩ with isExported := true }
    found := (name, value) :: found
  return found.reverse

/-- Show a simple command that is traced, on the channels before its redirections. -/
def trace (channels : List (Nat × Nat)) (values : List (Text × Text)) (args : List Text) : Sh Unit := do
  if !(← hasOption 'x') then return
  let sign := (← value? (text "PS4")).getD []
  let now := (← shell).channels
  onShell fun s => { s with channels := channels }
  discard (write 2 (sign ++ joinWith [' '] ((values.map fun (n, v) => n ++ '=' :: v) ++ args) ++ ['\n']))
  onShell fun s => { s with channels := now }

/-- Do something in which assignments are undone at the end. -/
def withLocals (a : Sh Unit) : Sh Unit := do
  onShell fun s => { s with locals := ([], none) :: s.locals }
  ensuring a restoreLocals

/-- Run a program, which takes the place of the shell if it is the last command. -/
def runProgram (last : Bool) (path name : Text) (args : List Text) : Sh Unit := do
  let hasTraps := (← shell).traps.any fun t => !t.2.isEmpty
  match ← launchProgram path name args with
  | .error fault    => do
    let (status, complaint) := launchFault fault
    warn (name ++ text ": " ++ complaint)
    setStatus status
  | .ok (.signal n) => if last && !hasTraps then throw (.dies n) else setStatus (← statusOf (.signal n))
  | .ok (.code n)   => setStatus n

/-- Run a program in the place of the shell. -/
def replaceShell (args : List Text) : Sh Unit := do
  match args with
  | []     => setStatus 0
  | n :: as => do
    let refuse (status : Nat) (complaint : Text) : Sh Unit := do
      warn (n ++ text ": " ++ complaint)
      setStatus status
      throw .exits
    match ← programKind n with
    | .program path =>
      match ← launchProgram path n as with
      | .error fault    => let (status, complaint) := launchFault fault; refuse status complaint
      | .ok (.signal n) => throw (.dies n)
      | .ok (.code n)   => do
        onShell fun s => { s with traps := [] }
        setStatus n
        throw .exits
    | .denied       => refuse 126 (text "Permission denied")
    | _             => refuse 127 (text "not found")

/-- Say what the names after `command` stand for. -/
def askCommand (args : List Text) : Sh Unit := do
  match ← commandArguments args with
  | (some long, name :: _) => setStatus (if ← describe long name then 0 else 127)
  | _                      => setStatus 0

/-- Leave loops, or go on with the next round of one. -/
def leaveLoops (again : Bool) (args : List Text) : Sh Unit := do
  let n ← match args with
    | []     => pure 1
    | a :: _ => do
      let n ← countArgument a
      if n = 0 then fail (text "Illegal number: " ++ a) else pure n
  let loops := (← shell).loops
  setStatus 0
  if 0 < loops then throw (.leaves (min n loops) again)

/-! ## Scripts -/

/-- How scripts are run: nothing ends the shell in a script that is `tested`, and the shell may become its `last`
    command. -/
abbrev Runner := (tested last : Bool) → Script → Sh Unit

namespace Runner

/-- Run the commands that a reader finds; whether there are any. `fuel` bounds their number. -/
def runCommands (self : Runner) (tested last : Bool) : Nat → Reader → (ran : Bool) → Sh Bool
  | 0,        _, ran => return ran
  | fuel + 1, r, ran => do
    let aliases := (← shell).aliases
    let (found, r) := Reader.command { r with aliases := aliases, nextDocument := (← world).nextDocument }
    onWorld fun w => { w with documents := r.documents ++ w.documents, nextDocument := r.nextDocument }
    let r := { r with documents := [] }
    match found with
    | .error complaint    => do
      onShell fun s => { s with line := r.line }
      fail (text "Syntax error: " ++ complaint)
    | .ok none            => return ran
    | .ok (some .nothing) => runCommands self tested last fuel r ran
    | .ok (some script)   => do
      self tested (last && r.isFinished) script
      runCommands self tested last fuel r true

/-- Run a text as a script. -/
def runText (self : Runner) (tested last : Bool) (t : Text) : Sh Unit := do
  let ran ← runCommands self tested last (readFuel t) (.start t (← world).nextDocument) false
  if !ran then setStatus 0

/-- Answer signals that have come. -/
def answerSignals (self : Runner) : Sh Unit := do
  let signals := (← shell).pending
  if signals.isEmpty then return
  onShell fun s => { s with pending := [] }
  for n in signals do
    match (← shell).traps.lookup n with
    | none        => pure ()
    | some action => do
      let status := (← shell).status
      onShell fun s => { s with trapStatus := some status }
      self.runText false false action
      onShell fun s => { s with trapStatus := none, status := status }

/-- End a shell after its last command. -/
def finish (self : Runner) (r : Except Flow Unit) : Sh Exit := do
  match r with
  | .error .endless  => throw .endless
  | .error (.dies n) => return .signal n
  | _                => do
    let s ← shell
    let code : Sh Exit := do return .code ((← shell).status % 256)
    match s.traps.lookup 0 with
    | none        => code
    | some action => do
      onShell fun s => { s with traps := dropKey 0 s.traps, trapStatus := some s.status }
      match ← attempt (self.runText false false action) with
      | .error .endless  => throw .endless
      | .error (.dies n) => return .signal n
      | .error .exits    => code
      | .error .fails    => code
      | _                => do
        setStatus s.status
        code

/-- Run something in a shell of its own. -/
def inSubshell (self : Runner) (body : Sh Unit) : Sh Exit := do
  let outer ← shell
  onShell fun s =>
    { s with depth := s.depth + 1, traps := s.traps.filter (·.2.isEmpty), pending := [], trapStatus := none }
  let r ← attempt body
  let e ← attempt (self.finish r)
  onShell fun _ => outer
  match e with
  | .error e => throw e
  | .ok e    => do
    if outer.depth = 0 then
      let signals := (← world).signals
      onWorld fun w => { w with signals := [] }
      for n in signals do receive n
    return e

/-- The text that was gathered in a stream. -/
def gatheredIn (id : Nat) : Sh Text := do
  match (← world).streams.lookup id with
  | some (.gathered parts) => return (inTime parts).flatten
  | _                      => return []

/-- What a script writes. -/
def capture (self : Runner) (body : Script) : Sh Text := do
  let id ← openStream (.gathered [])
  let e ← self.inSubshell do
    setChannel 1 id
    self false true body
  let status ← statusOf e
  awaitHolders id
  onShell fun s => { s with outputStatus := status }
  let t ← gatheredIn id
  onWorld fun w => { w with streams := dropKey id w.streams }
  return t.filter (· != '\x00')

/-- Do something on redirected channels. Its faults are passed on, and `refused` is done if the channels cannot be
    redirected. -/
def onChannels (self : Runner) (redirects : List Redirect) (keeps : Bool) (refused body : Sh Unit) : Sh Unit := do
  let start := (← world).nextStream
  let old := (← shell).channels
  let restore := restoreChannels (redirects.map Redirect.channel) old start
  let openings ← redirects.mapM fun r => do return (r.channel, ← expandRedirect self.capture r)
  match ← attempt (openings.forM fun (channel, o) => openAs channel o) with
  | .error .fails => do
    restore
    setStatus 2
    refused
  | .error e      => throw e
  | .ok _         => do
    match ← attempt body with
    | .ok _    => if !keeps then restore
    | .error e => do
      restore
      throw e

/-- Call a function. -/
def callFunction (self : Runner) (tested : Bool) (body : Script) (args : List Text) : Sh Unit := do
  let s ← shell
  if callLimit ≤ s.calls then throw (.dies 11)
  onShell fun s =>
    { s with params := args, calls := s.calls + 1, loops := 0, optionIndex := 1, optionPosition := none }
  let r ← attempt (self tested false body)
  onShell fun t =>
    { t with params := s.params, calls := s.calls, loops := s.loops, optionIndex := s.optionIndex
             optionPosition := s.optionPosition }
  match r with
  | .error .returns => return
  | .error e        => throw e
  | .ok _           => return

/-- Run the script in a file. -/
def runFile (self : Runner) (file : Text) : Sh Unit := do
  let s ← get
  let isThere (path : Text) : Bool := (s.world.disk.find? s.shell.dir (pathOf path)).any fun e => e.2 != .folder
  let path ← if '/' ∈ file then pure file
    else match (← programPaths file).find? isThere with
      | some path => pure path
      | none      => fail (file ++ text ": not found")
  match s.world.disk.readFile s.shell.dir (pathOf path) with
  | .error .isFolder => setStatus 0
  | .error e         => fail (openFault false path e)
  | .ok data         => do
    match ← attempt (asCommand path (self.runText false false (ofBytes data))) with
    | .error .returns => return
    | .error e        => throw e
    | .ok _           => return

/-- Run a command of the shell. -/
def runBuiltin (self : Runner) (tested last : Bool) (name : String) (args : List Text) : Sh Unit := do
  match name with
  | "eval"     => self.runText tested last (joinWith [' '] args)
  | "."        => do
    match (← takeLetters "" "" args).2 with
    | []        => setStatus 0
    | file :: _ => self.runFile file
  | "exec"     => do replaceShell (← takeLetters "" "" args).2
  | "exit"     => do
    let s ← shell
    setStatus (← match args with
      | []     => pure (s.trapStatus.getD s.status)
      | a :: _ => countArgument a)
    throw .exits
  | "return"   => do
    let s ← shell
    setStatus (← match args with
      | []     => pure s.status
      | a :: _ => countArgument a)
    throw .returns
  | "break"    => leaveLoops false args
  | "continue" => leaveLoops true args
  | name       =>
    match plainCommands.lookup name with
    | some command => command args
    | none         => setStatus 0

/-- Run what a simple command stands for. -/
def runPlan (self : Runner) (tested last : Bool) (plan : Plan) : Sh Unit := do
  match plan.kind, plan.target with
  | .function body, _ :: args => self.callFunction tested body args
  | .program path,  n :: args => runProgram last path n args
  | .missing,       n :: _    => do
    warn (n ++ text ": not found")
    setStatus 127
  | .denied,        n :: _    => do
    warn (n ++ text ": Permission denied")
    setStatus 127
  | _,              n :: args => asCommand n (self.runBuiltin tested last (String.ofList n) args)
  | _,              []        =>
    if plan.args.isEmpty then setStatus (← shell).outputStatus
    else asCommand (text "command") (askCommand plan.args.tail)

/-- Run a simple command. -/
def runSimple (self : Runner) (tested last : Bool) (assigned : List (Text × Word)) (words : List Word)
    (redirects : List Redirect) : Sh Unit := do
  onShell fun s => { s with outputStatus := 0 }
  let plan ← planOf self.capture words
  spendSome (plan.args.length / 4)
  let old := (← shell).channels
  let work : Sh Unit := do
    let values ← assignFor self.capture plan assigned
    trace old values plan.args
    -- Complaints of most commands do not end the shell.
    match ← attempt (self.runPlan tested last plan) with
    | .ok _         => return
    | .error .fails => if plan.endsShell then throw .fails
    | .error e      => throw e
  let refused : Sh Unit := if plan.isSpecial then throw .fails else return
  self.onChannels redirects (plan.isExec && plan.target.length == 1) refused
    (if plan.isLasting then work else withLocals work)

/-- What a loop does after a round: nothing if the round went through, and otherwise the status of the loop, or none if
    it goes on. -/
def afterRound (found : Nat) : Except Flow Unit → Sh (Option (Option Nat))
  | .error (.leaves n again) => do
    if 1 < n then
      onShell fun s => { s with loops := s.loops - 1 }
      throw (.leaves (n - 1) again)
    return some (if again then none else some found)
  | .error e                 => throw e
  | .ok _                    => return none

/-- Run a loop round by round; what comes of it is the status of the last round. `fuel` bounds the rounds. -/
def runLoop (self : Runner) (tested untilTrue : Bool) (condition body : Script) : Nat → Nat → Sh Nat
  | 0,        _     => throw .endless
  | fuel + 1, found => do
    spend
    match ← afterRound found (← attempt (self true false condition)) with
    | some (some status) => return status
    | some none          => self.runLoop tested untilTrue condition body fuel 0
    | none               => do
      if ((← shell).status == 0) == untilTrue then return found
      match ← afterRound 0 (← attempt (self tested false body)) with
      | some (some status) => return status
      | some none          => self.runLoop tested untilTrue condition body fuel 0
      | none               => do self.runLoop tested untilTrue condition body fuel (← shell).status

/-- Run a script for each of some words; what comes of it is the status of the last round. -/
def runEach (self : Runner) (tested : Bool) (name : Text) (body : Script) : List Text → Nat → Sh Nat
  | [],      found => return found
  | w :: ws, _     => do
    assign name w
    match ← afterRound 0 (← attempt (self tested false body)) with
    | some (some status) => return status
    | some none          => self.runEach tested name body ws 0
    | none               => do self.runEach tested name body ws (← shell).status

/-- The script of the first branch with a pattern that fits. -/
def chosenBranch (self : Runner) (t : Text) : List Branch → Sh (Option Script)
  | []                          => return none
  | .mk patterns body :: others => do
    let mut fits := false
    for p in patterns do
      if !fits then fits := (← expandPattern self.capture p).fits t
    if fits then return some body else self.chosenBranch t others

/-- Run the parts of a pipe, the first one on some input. All of them start at the same time. -/
def runPipe (self : Runner) (tested : Bool) (start : Nat) : Option Nat → List Script → Sh Unit
  | _,     []            => return
  | input, part :: parts => do
    let enter : Sh Unit := match input with
      | some id => setChannel 0 id
      | none    => return
    if parts.isEmpty then
      let e ← self.inSubshell do
        enter
        self tested true part
      setStatus (← statusOf e)
    else do
      let id ← openStream (.gathered [])
      let r ← attempt (withShare (self.inSubshell do
        enter
        setChannel 1 id
        self tested true part))
      match r with
      | .error .endless => pure ()
      | .error e        => throw e
      | .ok e           => do
        discard (statusOf e)
        awaitHolders id
      let written ← gatheredIn id
      let ended := (← world).clock
      onWorld fun w => { w with streams := putKey id (.source written false) w.streams, clock := start }
      self.runPipe tested start (some id) parts
      let rest := match (← world).streams.lookup id with
        | some (.source rest _) => rest
        | _                     => []
      onWorld fun w => { w with streams := dropKey id w.streams }
      match r with
      | .error _ => if rest.isEmpty then throw .endless
      | .ok _    => waitUntil ended

/-- Run a script beside the shell. -/
def runBeside (self : Runner) (body : Script) (redirects : List Redirect) : Sh Unit := do
  let id := (← world).nextJob
  onWorld fun w => { w with nextJob := id + 1 }
  let start := (← world).clock
  let outer ← shell
  let holds := outer.channels.filterMap fun (c, s) => if c = 0 then none else some s
  let r ← attempt (withShare (self.inSubshell do
    passTime startDelay
    setChannel 0 (← openStream .null)
    redirect self.capture redirects
    self false true body))
  let now := (← world).clock
  let job : Job ← match r with
    | .ok exit        => pure ⟨id, some now, exit, holds⟩
    | .error .endless => pure ⟨id, none, .signal 9, holds⟩
    | .error e        => throw e
  onWorld fun w => { w with jobs := w.jobs ++ [job], clock := start }
  onShell fun s => { s with lastJob := some id, status := 0 }
where
  /-- How much later a shell starts than the one that goes on beside it, in microseconds. -/
  startDelay : Nat := 200

/-- Do something in a loop. -/
def inLoop (a : Sh Nat) : Sh Unit := do
  onShell fun s => { s with loops := s.loops + 1 }
  let status ← a
  onShell fun s => { s with loops := s.loops - 1, status := status }

/-- How many rounds a loop may have. -/
def roundLimit : Nat := 1000000

/-- Run a script, whose parts are run by `self`. -/
def step (self : Runner) (tested last : Bool) (script : Script) : Sh Unit := do
  self.answerSignals
  if ← hasOption 'n' then return
  match script with
  | .nothing                              => return
  | .simple line assigned words redirects => do
    spend
    atLine line
    self.runSimple tested last assigned words redirects
    self.answerSignals
    checkExit tested
  | .redirected line body redirects       => do
    atLine line
    self.onChannels redirects false (checkExit tested) (self tested false body)
  | .seq a b                              => do
    self tested false a
    self tested last b
  | .both a b                             => do
    self true false a
    if (← shell).status = 0 then self tested last b
  | .either a b                           => do
    self true false a
    if (← shell).status ≠ 0 then self tested last b
  | .negated body                         => do
    self true false body
    setStatus (if (← shell).status = 0 then 1 else 0)
  | .choose condition yes no              => do
    self true false condition
    if (← shell).status = 0 then self tested last yes
    else match no with
      | .nothing => setStatus 0
      | no       => self tested last no
  | .loop untilTrue condition body        =>
    inLoop (self.runLoop tested untilTrue condition body roundLimit 0)
  | .each line name words body            => do
    atLine line
    let args ← words.mapM (expandWord self.capture)
    inLoop (self.runEach tested name body args.flatten 0)
  | .select line word branches            => do
    atLine line
    let t ← expandText self.capture word
    setStatus 0
    match ← self.chosenBranch t branches with
    | none          => return
    | some .nothing => return
    | some body     => self tested last body
  | .define name body                     => do
    onShell fun s => { s with functions := putKey name body s.functions }
    setStatus 0
  | .subshell line body redirects         => do
    atLine line
    let e ← self.inSubshell do
      redirect self.capture redirects
      self tested true body
    setStatus (← statusOf e)
    checkExit tested
  | .pipe parts                           => do
    self.runPipe tested (← world).clock none parts
    checkExit tested
  | .background line body redirects       => do
    if line ≠ 0 then atLine line
    self.runBeside body redirects

end Runner

/-- Run a script. `fuel` bounds how deep its commands stand in one another. -/
def run : Nat → Runner
  | 0        => fun _ _ _ => throw (.dies 11)
  | fuel + 1 => (run fuel).step

/-! ## Shells -/

/-- How deep the commands of a script may stand in one another. -/
def runDepth : Nat := 1000000

/-- How many commands a script may run before it counts as endless. -/
def stepLimit : Nat := 200000

/-- The variables at the start. -/
def startVariables (env : Environment) (path : Text) : List (Text × Variable) :=
  let given := (env.filter fun e => isName e.1 && e.1 != text "IFS").map fun (n, v) => (n, Variable.mk (some v) true false)
  let usual : List (Text × Variable) :=
    [(text "IFS", ⟨some usualSeparators, false, false⟩), (text "OPTIND", ⟨some ['1'], false, false⟩),
     (text "PATH", ⟨some (text "/usr/local/sbin:/usr/local/bin:/usr/sbin:/usr/bin:/sbin:/bin"), false, false⟩),
     (text "PS1", ⟨some (text "# "), false, false⟩), (text "PS2", ⟨some (text "> "), false, false⟩),
     (text "PS4", ⟨some (text "+ "), false, false⟩)]
  let all := usual.filter (fun u => (given.lookup u.1).isNone) ++ given
  putKey (text "PWD") ⟨some path, true, false⟩ all

/-- A shell that starts in a scene. -/
def startState (s : Scene) : State :=
  let shown := (s.env.lookup (text "PWD")).filter fun p =>
    Disk.isAbsolute p && (s.disk.find? [] (pathOf p)).map (·.1) == some s.dir
  let path := shown.getD (argumentOf (Disk.placeText s.dir))
  let outputs := s.channels.filter (· != 0)
  { shell :=
      { name := s.name, params := [], bindings := startVariables s.env path, functions := [], aliases := []
        options := [], dir := s.dir, path := path, channels := (0, 0) :: outputs.map fun c => (c, c), traps := []
        pending := [], status := 0, outputStatus := 0, line := 0, calls := 0, command := none, loops := 0
        locals := [], optionIndex := 1, optionPosition := none, trapStatus := none, depth := 0, lastJob := none
        mask := 0o22 }
    world :=
      { launch := s.launch, limit := s.limit, disk := s.disk
        streams := (0, .source s.input s.seekable) :: outputs.map fun c => (c, .outer c)
        nextStream := 1 + outputs.foldl max 0, written := [], clock := 0, steps := stepLimit, jobs := [], nextJob := 4243
        signals := [], documents := [], nextDocument := 0 } }

/-- The size of the pieces in which a shell reads a script from its input. -/
def inputPiece : Nat := 8192

/-- What a shell does with its arguments. -/
def shellMain (args : List Text) : Sh Unit := do
  let (hasScript, _, rest) ← readShellOptions true args
  let options := (← shell).options
  let script : Sh Text :=
    if hasScript then
      match rest with
      | []        => fail (text "-c requires an argument")
      | t :: more => do
        onShell fun s => { s with name := more.head?.getD s.name, params := more.tail }
        return t
    else
      match if options.elem 's' then [] else rest with
      | []        => do
        let (taken, _) ← inputOf 0
        keepInput 0 taken (taken.drop inputPiece)
        onShell fun s => { s with params := rest }
        return taken
      | file :: more => do
        let s ← get
        let start (t : Text) : Sh Text := do
          onShell fun s => { s with name := file, params := more }
          return t
        match s.world.disk.readFile s.shell.dir (pathOf file) with
        | .ok data         => start (ofBytes data)
        | .error .isFolder => start []
        | .error e         => fail (openFault false file e)
  let t ← script
  (run runDepth).runText false false t

/-- A shell. -/
def shellTool : Tool := fun scene args =>
  let body : Sh Exit := do
    let r ← attempt (shellMain args)
    let e ← (run runDepth).finish r
    for id in scene.channels do awaitHolders id
    return e
  let (r, s) := Id.run (StateT.run (ExceptT.run body) (startState scene))
  let rest := match s.world.streams.lookup 0 with
    | some (.source rest _) => rest
    | _                     => []
  let ending (e : Exit) : Ending := ⟨e, inTime s.world.written, rest, s.world.clock / 1000, s.world.disk⟩
  match r with
  | .ok e             => .ended (ending e)
  | .error (.dies n)  => .ended (ending (.signal n))
  | .error _          => .endless (ending (.signal 9))

end JavaMend.Host.Shell
