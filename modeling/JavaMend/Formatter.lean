import JavaMend.Disk.Change
import JavaMend.Text.Numerals

/-!
# `Formatter` — formatting as a function that may fail

A formatter turns a text into a text. It may be a program, and then it can fail in the ways in which programs do, and
change the disk.

## Contents
- **Failures.** `LaunchFault`, `FormatError` with its messages; `durationText`.
- **Formatters.** `Formatter`, `Formatter.ofFunction`, `Formatter.keep`.
-/

namespace JavaMend

open Text

/-! ## Failures -/

/-- Why a program cannot be started. -/
inductive LaunchFault where
  /-- There is no such program, or none to interpret it. -/
  | notFound (why : PathFault)
  /-- What is there cannot be run. -/
  | denied
  /-- What is there is no program. -/
  | notProgram
  /-- The command holds a null character. -/
  | nullCharacter
deriving DecidableEq, Repr

/-- The wording of a fault. -/
def LaunchFault.message : LaunchFault → Text
  | .notFound why  => why.numbered
  | .denied        => text "Permission denied (os error 13)"
  | .notProgram    => text "Exec format error (os error 8)"
  | .nullCharacter => text "nul byte found in provided data"

/-- Why a text was not formatted. -/
inductive FormatError where
  /-- The program cannot be started. -/
  | notLaunched (program : Text) (fault : LaunchFault)
  /-- The program did not end within so many milliseconds. -/
  | timedOut (limit : Nat)
  /-- The program ended with a code other than 0, or was stopped and has none; with what it said about it. -/
  | exited (code : Option Nat) (remark : Text)
  /-- What the program wrote is no text. -/
  | notText
deriving DecidableEq, Repr

/-- The fraction digits of thousandths, without trailing zeros. -/
def thousandths (n : Nat) : Text :=
  let digits := (ofNat (1000 + n)).drop 1
  (digits.reverse.dropWhile (· == '0')).reverse

/-- A time in milliseconds, in the largest unit that it fills. -/
def durationText (ms : Nat) : Text :=
  if ms = 0 then text "0ns"
  else if ms < 1000 then ofNat ms ++ text "ms"
  else if ms % 1000 = 0 then ofNat (ms / 1000) ++ ['s']
  else ofNat (ms / 1000) ++ '.' :: thousandths (ms % 1000) ++ ['s']

/-- The wording of an exit code. -/
def exitCodeText : Option Nat → Text
  | some code => text "Some(" ++ ofNat code ++ [')']
  | none      => text "None"

/-- The wording of a failure. -/
def FormatError.message : FormatError → Text
  | .notLaunched program fault => text "failed to launch formatter " ++ program ++ text ": " ++ fault.message
  | .timedOut limit            => text "formatter timed out after " ++ durationText limit
  | .exited code remark        => text "formatter exited with code " ++ exitCodeText code ++ text ": " ++ remark
  | .notText                   => text "formatter produced non-UTF-8 output"

/-! ## Formatters -/

/-- What formats a text or fails, and may change the disk. -/
abbrev Formatter := Text → Action FormatError Text

namespace Formatter

/-- A function as a formatter. -/
def ofFunction (f : Text → Except FormatError Text) : Formatter := fun t => Action.ofExcept (f t)

/-- The formatter that keeps every text. -/
def keep : Formatter := ofFunction .ok

end Formatter
end JavaMend
