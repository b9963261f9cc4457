import JavaMend.Host.Tool

/-!
# `Host.Options` — options and operands

Options are letters after a dash, several of which may share one, or long names after two dashes, which may be cut
short. The value of an option is the rest of its argument, or the next argument. Operands may stand between options; two
dashes alone end the options.

## Contents
- **Grammar.** `OptionSpec`, `OptionFault` with its messages.
- **Reading.** `Options`, `readOptions`, `isGiven`, `given?`; `takeOptions`, `misused`.
-/

namespace JavaMend.Host

open JavaMend Text

/-! ## Grammar -/

/-- The options of a tool. -/
structure OptionSpec where
  /-- Letters without a value. -/
  flags : String
  /-- Letters with a value. -/
  valued : String
  /-- Letters with a value that can be left out, and then stands in the same argument. -/
  optional : String
  /-- Long names with the letters that they stand for. -/
  long : List (String × Char)
  /-- Operands end the options. -/
  inOrder : Bool

/-- Why arguments are refused. -/
inductive OptionFault where
  | unknown (c : Char)
  | noValue (c : Char)
  | unknownLong (name : Text)
  | ambiguous (name : Text) (names : List Text)
  | noValueLong (name : Text)
  | valueLong (name : Text)

/-- The wording of a refusal. -/
def OptionFault.message : OptionFault → Text
  | .unknown c              => text "invalid option -- '" ++ c :: text "'"
  | .noValue c              => text "option requires an argument -- '" ++ c :: text "'"
  | .unknownLong name       => text "unrecognized option '--" ++ name ++ text "'"
  | .ambiguous name names   =>
    text "option '--" ++ name ++ text "' is ambiguous; possibilities:" ++
      names.flatMap fun n => text " '--" ++ n ++ text "'"
  | .noValueLong name       => text "option '--" ++ name ++ text "' requires an argument"
  | .valueLong name         => text "option '--" ++ name ++ text "' doesn't allow an argument"

/-! ## Reading -/

/-- Options with their values, as they are given. -/
abbrev Options := List (Char × Text)

/-- The long names that a shortened one may stand for: itself alone, if it is one. -/
def OptionSpec.candidates (spec : OptionSpec) (name : Text) : List (Text × Char) :=
  let long := spec.long.map fun (n, c) => (n.toList, c)
  match long.find? fun (n, _) => n = name with
  | some found => [found]
  | none       =>
    let fitting := long.filter fun (n, _) => startsWith name n
    match fitting with
    | (n, c) :: more => if more.all fun m => m.2 == c then [(n, c)] else fitting
    | []             => []

/-- The letters of one argument: options, and whether the last one is still without its value. -/
def OptionSpec.letters (spec : OptionSpec) : Text → Except OptionFault (Options × Option Char)
  | []     => .ok ([], none)
  | c :: r =>
    if c ∈ spec.flags.toList then do
      let (options, waiting) ← spec.letters r
      return ((c, []) :: options, waiting)
    else if c ∈ spec.valued.toList then .ok (if r.isEmpty then ([], some c) else ([(c, r)], none))
    else if c ∈ spec.optional.toList then .ok ([(c, r)], none)
    else .error (.unknown c)

/-- The options and the operands among arguments. -/
def readOptions (spec : OptionSpec) : List Text → Except OptionFault (Options × List Text)
  | []      => .ok ([], [])
  | a :: as =>
    match a with
    | ['-', '-']         => .ok ([], as)
    | '-' :: '-' :: long =>
      let name := long.takeWhile (· != '=')
      let value? := if name.length < long.length then some (long.drop (name.length + 1)) else none
      match spec.candidates name with
      | []          => .error (.unknownLong name)
      | [(full, c)] =>
        if c ∈ spec.flags.toList then
          if value?.isSome then .error (.valueLong full)
          else do
            let (options, operands) ← readOptions spec as
            return ((c, []) :: options, operands)
        else match value?, as with
          | some v, as       => do
            let (options, operands) ← readOptions spec as
            return ((c, v) :: options, operands)
          | none,   as       =>
            if c ∈ spec.optional.toList then do
              let (options, operands) ← readOptions spec as
              return ((c, []) :: options, operands)
            else match as with
              | v :: as => do
                let (options, operands) ← readOptions spec as
                return ((c, v) :: options, operands)
              | []      => .error (.noValueLong full)
      | several     => .error (.ambiguous name (several.map (·.1)))
    | '-' :: c :: r      => do
      let (options, waiting) ← spec.letters (c :: r)
      match waiting, as with
      | none,   as      => do
        let (more, operands) ← readOptions spec as
        return (options ++ more, operands)
      | some x, v :: as => do
        let (more, operands) ← readOptions spec as
        return (options ++ (x, v) :: more, operands)
      | some x, []      => .error (.noValue x)
    | operand            =>
      if spec.inOrder then .ok ([], operand :: as)
      else do
        let (options, operands) ← readOptions spec as
        return (options, operand :: operands)

/-- The option is given. -/
def isGiven (options : Options) (c : Char) : Bool := options.any fun o => o.1 == c

/-- The value of the option that is given last. -/
def given? (options : Options) (c : Char) : Option Text := options.reverse.lookup c

/-- Complain, hint at the help, and end. -/
def misused {α : Type} (code : Nat) (complaint : Text) : Job α := do
  let name := (← read).name
  complain (name ++ text ": " ++ complaint)
  complain (text "Try '" ++ name ++ text " --help' for more information.")
  quit code

/-- The options and operands of a tool; it ends with a complaint and a code if they are refused. -/
def takeOptions (code : Nat) (spec : OptionSpec) (args : List Text) : Job (Options × List Text) := do
  match readOptions spec args with
  | .ok found    => return found
  | .error fault => misused code fault.message

end JavaMend.Host
