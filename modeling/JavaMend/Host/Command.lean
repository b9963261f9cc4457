import JavaMend.Disk.Change
import JavaMend.Formatter

/-!
# `Host.Command` — running programs

A launcher runs commands: it is a function of the command and the disk, so that every run can be repeated. A run may not
start, never end, or end with an exit, something written and a changed disk. What programs are told, read and write is
bytes; here these are texts with one character for each byte.

## Contents
- **Runs.** `Command`, `Exit`, `Ending`, `Run`, `Launcher`.
- **Formatters.** `formatted`, `formatterOf`: a command as a formatter.
-/

namespace JavaMend.Host

open JavaMend Text

/-! ## Runs -/

/-- Names with values that are handed to programs. -/
abbrev Environment := List (Text × Text)

/-- The path that an argument names. -/
def pathOf (argument : Text) : Text := ofUtf8Lenient (toBytes argument)

/-- What a text is to a program. -/
def argumentOf (t : Text) : Text := ofBytes (utf8 t)

/-- A program to run. -/
structure Command where
  /-- A name to be looked for, or a path. -/
  program : Text
  /-- The name that the program is told to have. -/
  name : Text
  args : List Text
  /-- The folder to run it in. -/
  dir : Place
  input : Text
  /-- What was read of the input can be given back, since it is a file. -/
  seekable : Bool
  /-- The environment, if it is not that of the host. -/
  env : Option Environment
  /-- The channels that are open for output. -/
  channels : List Nat
  /-- The milliseconds after which it is stopped. -/
  limit : Option Nat
  /-- What is no program is given to the shell. -/
  asScript : Bool

/-- A command that an outsider gives, in the environment of the host. -/
def Command.plain (program : Text) (args : List Text) (dir : Place) (input : Bytes) (limit : Option Nat) : Command :=
  ⟨argumentOf program, argumentOf program, args.map argumentOf, dir, ofBytes input, false, none, [1, 2], limit, false⟩

/-- How a program ends. -/
inductive Exit where
  | code (n : Nat)
  /-- Stopped by a signal. -/
  | signal (n : Nat)
deriving DecidableEq, Repr

/-- The exit code, if there is one. -/
def Exit.code? : Exit → Option Nat
  | .code n   => some n
  | .signal _ => none

/-- Signals by number, from 1 on. -/
def signalNames : List String :=
  ["HUP", "INT", "QUIT", "ILL", "TRAP", "ABRT", "BUS", "FPE", "KILL", "USR1", "SEGV", "USR2", "PIPE", "ALRM", "TERM",
   "STKFLT", "CHLD", "CONT", "STOP", "TSTP", "TTIN", "TTOU", "URG", "XCPU", "XFSZ", "VTALRM", "PROF", "WINCH", "IO",
   "PWR", "SYS"]

/-- The name of a signal; none for the greater numbers. -/
def signalName? (n : Nat) : Option Text := if n = 0 then none else (signalNames[n - 1]?).map text

/-- The wording of an exit. -/
def Exit.message : Exit → Text
  | .code n   => text "exit status: " ++ ofNat n
  | .signal n =>
    text "signal: " ++ ofNat n ++
      (match signalName? n with
      | some name => text " (SIG" ++ name ++ [')']
      | none      => [])

/-- What a program leaves when it ends. -/
structure Ending where
  exit : Exit
  /-- What it wrote, in order, with the channels. -/
  written : List (Nat × Text)
  /-- What it has not read of its input. -/
  rest : Text
  /-- The time it took, in milliseconds. -/
  elapsed : Nat
  disk : Disk

/-- What was written to a channel. -/
def Ending.on (e : Ending) (channel : Nat) : Text :=
  e.written.flatMap fun w => if w.1 = channel then w.2 else []

/-- What comes of a command. -/
inductive Run where
  /-- It is not started. -/
  | refused (fault : LaunchFault)
  /-- It does not end in time. What it leaves when it is stopped. -/
  | endless (e : Ending)
  | ended (e : Ending)

/-- A launcher runs commands. -/
abbrev Launcher := Disk → Command → Run

/-! ## Formatters -/

/-- What stands for the style file in the arguments of a formatter. -/
def stylePlaceholder : Text := text "\x7bstyle\x7d"

/-- The formatting that a run amounts to, given so many milliseconds. -/
def formatted (program : Text) (limit : Nat) : Run → Action FormatError Text
  | .refused fault => throw (.notLaunched program fault)
  | .endless e     => do set e.disk; throw (.timedOut limit)
  | .ended e       => do
    set e.disk
    if limit ≤ e.elapsed then throw (.timedOut limit)
    if e.exit ≠ .code 0 then throw (.exited e.exit.code? (trim (ofUtf8Lenient (toBytes (e.on 2)))))
    match ofUtf8? (toBytes (e.on 1)) with
    | some t => return t
    | none   => throw .notText

/-- A program as a formatter: it reads a text and writes the formatted one. -/
def formatterOf (host : Launcher) (dir : Place) (program : Text) (args : List Text) (style : Option Text)
    (limit : Nat) : Formatter := fun t => do
  let styled := args.map (replaceAll stylePlaceholder (style.getD []))
  formatted program limit (host (← get) (.plain program styled dir (utf8 t) (some limit)))

end JavaMend.Host
