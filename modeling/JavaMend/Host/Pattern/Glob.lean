import JavaMend.Host.Pattern.CharSet

/-!
# `Host.Pattern.Glob` — patterns of names

A glob matches a whole word: a star stands for any characters, a question mark for one, and brackets for one of a set.

## Contents
- **Globs.** `GlobPart`, `Glob.read`, `Glob.ofText`, `Glob.isLiteral`.
- **Matching.** `Glob.fits`.
-/

namespace JavaMend.Host

open JavaMend Text

/-! ## Globs -/

/-- A part of a glob. -/
inductive GlobPart where
  | char (c : Char)
  | one
  | many
  | oneOf (s : CharSet)
deriving DecidableEq, Repr

/-- A glob. -/
abbrev Glob := List GlobPart

namespace Glob

/-- The parts of a pattern; one of `negations` at the start of a bracket negates it. A bracket that is not closed
    stands for itself. `fuel` bounds their number. -/
def readParts (negations : List Char) : Nat → List Mark → Glob
  | 0,        _ => []
  | fuel + 1, t =>
    match t with
    | []               => []
    | ('*', true) :: r => .many :: readParts negations fuel r
    | ('?', true) :: r => .one :: readParts negations fuel r
    | ('[', true) :: r =>
      match readBracket negations r with
      | .ok (s, rest) => .oneOf s :: readParts negations fuel rest
      | .error _      => .char '[' :: readParts negations fuel r
    | (c, _) :: r      => .char c :: readParts negations fuel r

/-- The glob that a pattern spells. -/
def read (negations : List Char) (t : List Mark) : Glob := readParts negations t.length t

/-- The characters of a pattern in which a backslash takes away the meaning of the next character. -/
def escapedMarks : Text → List Mark
  | '\\' :: c :: r => (c, false) :: escapedMarks r
  | c :: r         => (c, true) :: escapedMarks r
  | []             => []

/-- The glob that a text spells. -/
def ofText (t : Text) : Glob := read ['!', '^'] (escapedMarks t)

/-- The glob stands for one word only. -/
def isLiteral (g : Glob) : Bool := g.all fun p => match p with
  | .char _ => true
  | _       => false

/-- The characters of a glob that stands for one word. -/
def letters (g : Glob) : Text := g.filterMap fun p => match p with
  | .char c => some c
  | _       => none

/-! ## Matching -/

/-- The word matches the glob. -/
def fits : Glob → Text → Bool
  | [],             t      => t.isEmpty
  | .many :: g,     []     => fits g []
  | .many :: g,     c :: t => fits g (c :: t) || fits (.many :: g) t
  | .char a :: g,   c :: t => a == c && fits g t
  | .one :: g,      _ :: t => fits g t
  | .oneOf s :: g,  c :: t => s.has c && fits g t
  | _ :: _,         []     => false
termination_by g t => g.length + t.length

/-- A glob of characters matches the word that they spell. -/
theorem fits_chars (t : Text) : fits (t.map .char) t = true := by
  induction t with
  | nil => simp [fits]
  | cons c t ih => simp [fits, ih]

end Glob
end JavaMend.Host
