import JavaMend.Host.Shell.Script

/-!
# `Host.Shell.State` — what a shell knows and where it stands

A shell has variables, functions and channels of its own; a shell in parentheses starts with a copy of them and gives
nothing back. The disk, what was written, the time and the streams that channels lead to belong to all shells together.

## Contents
- **Streams.** `Stream`, `Job`.
- **Shells.** `Variable`, `Shell`, `World`, `State`, `Flow`, `Sh`; `spend`.
- **Writing and reading.** `write`, `warn`, `fail`, `inputOf`, `keepInput`.
- **Variables.** `binding?`, `value?`, `assign`, `unset`, `exported`.
- **Channels.** `streamOf?`, `openStream`, `setChannel`, `closeChannel`.
- **Time.** `passTime`.
-/

namespace JavaMend.Host.Shell

open JavaMend Text

/-! ## Streams -/

/-- What a channel leads to. -/
inductive Stream where
  /-- A text to be read; what was read can be given back if it is seekable. -/
  | source (rest : Text) (seekable : Bool)
  /-- A channel of the shell's surroundings. -/
  | outer (channel : Nat)
  /-- What is written is kept with its time, the latest first. -/
  | gathered (parts : List (Nat × Text))
  | file (place : Place) (position : Nat) (use : FileUse)
  | null
  | full

/-- A shell that runs beside this one. -/
structure Job where
  id : Nat
  /-- When it ends, if it does. -/
  ends : Option Nat
  exit : Exit
  /-- The streams that it can write to. -/
  holds : List Nat

/-! ## Shells -/

/-- A variable, perhaps without a value. -/
structure Variable where
  value : Option Text
  isExported : Bool
  isFixed : Bool

/-- What belongs to one shell. -/
structure Shell where
  /-- The name that it is called by. -/
  name : Text
  params : List Text
  bindings : List (Text × Variable)
  functions : List (Text × Script)
  aliases : List (Text × Text)
  /-- The letters of the options that are set. -/
  options : Text
  /-- The folder that it stands in, and the path by which that was reached. -/
  dir : Place
  path : Text
  /-- The streams that the channels lead to. -/
  channels : List (Nat × Nat)
  /-- What is done on signals; 0 stands for the end of the shell. -/
  traps : List (Nat × Text)
  /-- Signals that have come and are still to be answered. -/
  pending : List Nat
  /-- The status of the last command. -/
  status : Nat
  /-- The status of the last output that was put in a word. -/
  outputStatus : Nat
  /-- The line of the command. -/
  line : Nat
  /-- The functions around. -/
  calls : Nat
  /-- The command that complains. -/
  command : Option Text
  /-- How many loops there are around. -/
  loops : Nat
  /-- What variables and options were before the functions around made them their own. -/
  locals : List (List (Text × Option Variable) × Option Text)
  /-- The argument that is the next one for `getopts`, and how far the letters of the one before have been read. -/
  optionIndex : Nat
  optionPosition : Option Nat
  /-- The status before a trap was run. -/
  trapStatus : Option Nat
  /-- The shells in parentheses around. -/
  depth : Nat
  /-- The last job. -/
  lastJob : Option Nat
  mask : Nat

/-- What belongs to all shells together. -/
structure World where
  launch : Launcher
  limit : Option Nat
  disk : Disk
  streams : List (Nat × Stream)
  nextStream : Nat
  /-- What was written to outer channels with its time, the latest first. -/
  written : List (Nat × Nat × Text)
  /-- The time since the start, in microseconds. -/
  clock : Nat
  /-- How many commands may still be run. -/
  steps : Nat
  jobs : List Job
  nextJob : Nat
  /-- Signals to the outermost shell that came from shells in parentheses. -/
  signals : List Nat
  /-- Texts that stand in the script. -/
  documents : List (Nat × Word)
  nextDocument : Nat

/-- The state of a shell in its world. -/
structure State where
  shell : Shell
  world : World

/-- Why a command does not go on to the next one. -/
inductive Flow where
  /-- So many loops are left; the last one goes on with its next round if `again` holds. -/
  | leaves (loops : Nat) (again : Bool)
  | returns
  /-- The shell ends. -/
  | exits
  /-- The shell ends because of a fault. -/
  | fails
  /-- A signal ends the shell. -/
  | dies (signal : Nat)
  /-- It goes on forever. -/
  | endless
deriving DecidableEq

/-- Steps of a shell. -/
abbrev Sh := ExceptT Flow (StateM State)

/-- The shell as it is. -/
def shell : Sh Shell := return (← get).shell

/-- The world as it is. -/
def world : Sh World := return (← get).world

/-- Change the shell. -/
def onShell (f : Shell → Shell) : Sh Unit := modify fun s => { s with shell := f s.shell }

/-- Change the world. -/
def onWorld (f : World → World) : Sh Unit := modify fun s => { s with world := f s.world }

/-- Do something and see how it ends. -/
def attempt {α : Type} (a : Sh α) : Sh (Except Flow α) := ExceptT.mk do
  let r ← a.run
  return .ok r

/-- Some more is done; in the end it is too much. -/
def spendSome (cost : Nat) : Sh Unit := do
  let w ← world
  if w.steps < cost then throw .endless
  onWorld fun w => { w with steps := w.steps - cost }

/-- One more command is run. -/
def spend : Sh Unit := spendSome 1

/-- Set the status. -/
def setStatus (n : Nat) : Sh Unit := onShell fun s => { s with status := n }

/-! ## Lists by key -/

/-- Put a value in the place of the one with the same key, or at the start. -/
def putKey {α β : Type} [BEq α] (k : α) (v : β) (l : List (α × β)) : List (α × β) :=
  if l.any fun e => e.1 == k then l.map fun e => if e.1 == k then (k, v) else e else (k, v) :: l

/-- Leave out the value with a key. -/
def dropKey {α β : Type} [BEq α] (k : α) (l : List (α × β)) : List (α × β) := l.filter fun e => e.1 != k

/-- What was put under a key is found under it. -/
theorem lookup_putKey {α β : Type} [BEq α] [LawfulBEq α] (k : α) (v : β) (l : List (α × β)) :
    (putKey k v l).lookup k = some v := by
  unfold putKey
  split
  · rename_i h
    induction l with
    | nil => simp at h
    | cons e l ih =>
      obtain ⟨j, w⟩ := e
      by_cases hj : j = k
      · simp [hj]
      · have hk : (k == j) = false := by simpa using fun h' => hj h'.symm
        simp only [List.map_cons, beq_iff_eq, hj, if_false, List.lookup_cons, hk]
        simpa [hj] using ih (by simpa [hj] using h)
  · exact List.lookup_cons_self

/-! ## Channels -/

/-- The number of the stream that a channel leads to. -/
def streamId? (channel : Nat) : Sh (Option Nat) := return (← shell).channels.lookup channel

/-- The stream that a channel leads to. -/
def stream? (channel : Nat) : Sh (Option Stream) := do
  match ← streamId? channel with
  | some id => return (← world).streams.lookup id
  | none    => return none

/-- Put a stream in the place of the one that a channel leads to. -/
def setStream (channel : Nat) (s : Stream) : Sh Unit := do
  match ← streamId? channel with
  | some id => onWorld fun w => { w with streams := putKey id s w.streams }
  | none    => return

/-- Make a new stream. -/
def openStream (s : Stream) : Sh Nat := do
  let id := (← world).nextStream
  onWorld fun w => { w with streams := (id, s) :: w.streams, nextStream := id + 1 }
  return id

/-- Let a channel lead to a stream. -/
def setChannel (channel id : Nat) : Sh Unit := onShell fun s => { s with channels := putKey channel id s.channels }

/-- Let a channel lead nowhere. -/
def closeChannel (channel : Nat) : Sh Unit := onShell fun s => { s with channels := dropKey channel s.channels }

/-- Forget the streams that were made since `start` and that no channel leads to. -/
def dropStreams (start : Nat) : Sh Unit := do
  let used := (← shell).channels.map (·.2)
  onWorld fun w => { w with streams := w.streams.filter fun e => Nat.blt e.1 start || used.elem e.1 }

/-! ## Writing and reading -/

/-- What can be read of the file at a place. -/
def fileText (d : Disk) (place : Place) : Text := ((d.file? place).map ofBytes).getD []

/-- A text with another one written over it at a position. -/
def overwritten (position : Nat) (t old : Text) : Text :=
  old.take position ++ List.replicate (position - old.length) '\x00' ++ t ++ old.drop (position + t.length)

/-- Why something cannot be written. -/
inductive WriteFault where
  | closed
  | noSpace

/-- The wording of a fault. -/
def WriteFault.message : WriteFault → Text
  | .closed  => text "Bad file descriptor"
  | .noSpace => text "No space left on device"

/-- Write to a channel. -/
def write (channel : Nat) (t : Text) : Sh (Option WriteFault) := do
  match ← stream? channel with
  | some (.outer n)                 => do
    if !t.isEmpty then onWorld fun w => { w with written := (w.clock, n, t) :: w.written }
    return none
  | some (.gathered parts)          => do
    setStream channel (.gathered (((← world).clock, t) :: parts))
    return none
  | some (.file place position use) => do
    if use = .read then return some .closed
    let old := fileText (← world).disk place
    let position := if use = .append then old.length else position
    spendSome (old.length / 256)
    match (← world).disk.writeAt place (toBytes (overwritten position t old)) with
    | .ok d    => do
      onWorld fun w => { w with disk := d }
      setStream channel (.file place (position + t.length) use)
    | .error _ => return none
    return none
  | some .null                      => return none
  | some .full                      => return if t.isEmpty then none else some .noSpace
  | some (.source _ _)              => return some .closed
  | none                            => return some .closed

/-- Write to the output; whether that was possible. -/
def say (t : Text) : Sh Bool := do return (← write 1 t).isNone

/-- Write a complaint to the channel for errors. -/
def warn (complaint : Text) : Sh Unit := do
  let s ← shell
  let place := s.name ++ text ": " ++ ofNat s.line ++ text ": "
  let name := match s.command with
    | some c => c ++ text ": "
    | none   => []
  discard (write 2 (place ++ name ++ complaint ++ ['\n']))

/-- Complain, and end with a status. -/
def failWith {α : Type} (status : Nat) (complaint : Text) : Sh α := do
  warn complaint
  setStatus status
  throw .fails

/-- Complain, and end. -/
def fail {α : Type} (complaint : Text) : Sh α := failWith 2 complaint

/-- What can be read from a channel, and whether it can be given back. -/
def inputOf (channel : Nat) : Sh (Text × Bool) := do
  match ← stream? channel with
  | some (.source rest seekable)  => return (rest, seekable)
  | some (.file place position _) => return ((fileText (← world).disk place).drop position, true)
  | _                             => return ([], false)

/-- Leave what was not read of a channel; `taken` is what could be read. -/
def keepInput (channel : Nat) (taken rest : Text) : Sh Unit := do
  match ← stream? channel with
  | some (.source _ seekable)        => setStream channel (.source rest seekable)
  | some (.file place position use)  =>
    setStream channel (.file place (position + (taken.length - rest.length)) use)
  | _                                => return

/-! ## Variables -/

/-- A variable, if there is one. -/
def binding? (name : Text) : Sh (Option Variable) := do return (← shell).bindings.lookup name

/-- The value of a variable. -/
def value? (name : Text) : Sh (Option Text) := do
  return (← binding? name).bind Variable.value

/-- Change a variable. -/
def setVariable (name : Text) (v : Variable) : Sh Unit := do
  spendSome ((v.value.map fun t => t.length / 64).getD 0)
  onShell fun s => { s with bindings := putKey name v s.bindings }
  if name = text "OPTIND" then
    let n := ((v.value.bind digitsValue?).filter (· != 0)).getD 1
    onShell fun s => { s with optionIndex := n, optionPosition := none }

/-- Give a variable a value. -/
def assign (name value : Text) : Sh Unit := do
  if !isName name then fail (name ++ text ": bad variable name")
  let v := (← binding? name).getD ⟨none, false, false⟩
  if v.isFixed then fail (name ++ text ": is read only")
  setVariable name { v with value := some value, isExported := v.isExported || (← shell).options.elem 'a' }

/-- Forget a variable. -/
def unset (name : Text) : Sh Unit := do
  if ((← binding? name).map (·.isFixed)).getD false then fail (name ++ text ": is read only")
  onShell fun s => { s with bindings := dropKey name s.bindings }

/-- The variables that are handed to programs. -/
def exported : Sh Environment := do
  return (← shell).bindings.filterMap fun (name, v) =>
    if v.isExported then v.value.map fun value => (name, value) else none

/-- The signs at which words are split. -/
def separators : Sh (Option Text) := value? (text "IFS")

/-- The option is set. -/
def hasOption (c : Char) : Sh Bool := do return (← shell).options.elem c

/-! ## Time -/

/-- The time is now this one, unless it is later already. -/
def waitUntil (time : Nat) : Sh Unit := do
  let w ← world
  let now := max w.clock time
  onWorld fun w => { w with clock := now }
  if w.limit.any fun most => most * 1000 ≤ now then throw .endless

/-- Let microseconds pass. -/
def passTime (time : Nat) : Sh Unit := do waitUntil ((← world).clock + time)

/-- Texts in the order of their times, which are given the latest first. -/
def inTime {α : Type} (parts : List (Nat × α)) : List α :=
  (parts.reverse.mergeSort fun a b => decide (a.1 ≤ b.1)).map (·.2)

end JavaMend.Host.Shell
