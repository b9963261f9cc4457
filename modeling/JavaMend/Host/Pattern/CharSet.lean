import JavaMend.Text

/-!
# `Host.Pattern.CharSet` — sets of characters between brackets

A bracket expression lists characters, ranges and named classes, or all others. A closing bracket right at the start is
an item, and so is a dash at one of the ends.

## Contents
- **Sets.** `CharSet`, `CharSet.has`, `CharSet.folded`, `classRanges?`.
- **Reading.** `Mark`, `BracketFault`, `readBracket`.
-/

namespace JavaMend.Host

open JavaMend Text

/-! ## Sets -/

/-- A set of characters: ranges, or all others. -/
structure CharSet where
  negated : Bool
  ranges : List (Char × Char)
deriving DecidableEq, Repr

namespace CharSet

/-- The character is in one of the ranges. -/
def lists (s : CharSet) (c : Char) : Bool := s.ranges.any fun r => r.1 ≤ c && c ≤ r.2

/-- The character is in the set. -/
def has (s : CharSet) (c : Char) : Bool := s.lists c != s.negated

/-- The character is in the set in one case or the other. -/
def hasFolded (s : CharSet) (c : Char) : Bool := (s.lists c.toLower || s.lists c.toUpper) != s.negated

/-- The set of all other characters. -/
def other (s : CharSet) : CharSet := { s with negated := !s.negated }

theorem has_other (s : CharSet) (c : Char) : s.other.has c = !s.has c := by
  simp only [has, other, lists]
  cases s.negated <;> cases (s.ranges.any fun r => decide (r.1 ≤ c) && decide (c ≤ r.2)) <;> rfl

end CharSet

/-- The ranges of a named class. -/
def classRanges? (name : Text) : Option (List (Char × Char)) :=
  let upper := ('A', 'Z')
  let lower := ('a', 'z')
  let digit := ('0', '9')
  match String.ofList name with
  | "upper"  => some [upper]
  | "lower"  => some [lower]
  | "alpha"  => some [upper, lower]
  | "digit"  => some [digit]
  | "alnum"  => some [upper, lower, digit]
  | "xdigit" => some [digit, ('A', 'F'), ('a', 'f')]
  | "space"  => some [('\t', '\r'), (' ', ' ')]
  | "blank"  => some [('\t', '\t'), (' ', ' ')]
  | "cntrl"  => some [('\x00', '\x1f'), ('\x7f', '\x7f')]
  | "print"  => some [(' ', '~')]
  | "graph"  => some [('!', '~')]
  | "punct"  => some [('!', '/'), (':', '@'), ('[', Char.ofNat 0x60), ('\x7b', '~')]
  | _        => none

/-- The characters of words. -/
def wordSet : CharSet := ⟨false, [('A', 'Z'), ('a', 'z'), ('0', '9'), ('_', '_')]⟩

/-- The characters that leave space. -/
def spaceSet : CharSet := ⟨false, [('\t', '\r'), (' ', ' ')]⟩

/-! ## Reading -/

/-- A character of a pattern, and whether it may have a special meaning there. -/
abbrev Mark := Char × Bool

/-- Characters that may all have a special meaning. -/
def marks (t : Text) : List Mark := t.map fun c => (c, true)

/-- Why a bracket expression is refused. -/
inductive BracketFault where
  | isOpen
  | badClass
  | badRange
deriving DecidableEq, Repr

/-- The name before a closing pair such as `:]`, and what follows the pair. -/
def untilPair? (c : Char) : List Mark → Option (Text × List Mark)
  | (a, _) :: (b, x) :: r =>
    if a = c ∧ b = ']' then some ([], r)
    else (untilPair? c ((b, x) :: r)).map fun (name, rest) => (a :: name, rest)
  | _                     => none

/-- A single character of a bracket expression, which may be spelled `[.c.]` or `[=c=]`. -/
def bracketChar? : List Mark → Option (Char × List Mark)
  | ('[', true) :: (k, true) :: r =>
    if k = '.' ∨ k = '=' then
      match untilPair? k r with
      | some ([c], rest) => some (c, rest)
      | _                => none
    else some ('[', (k, true) :: r)
  | (c, _) :: r                   => some (c, r)
  | []                            => none

/-- The items of a bracket expression up to its end. `fuel` bounds their number. -/
def bracketItems : Nat → Bool → List Mark → Except BracketFault (List (Char × Char) × List Mark)
  | 0,        _,     _ => .error .isOpen
  | fuel + 1, first, t =>
    match t with
    | []                              => .error .isOpen
    | ('[', true) :: (':', true) :: r =>
      match untilPair? ':' r with
      | none              => .error .isOpen
      | some (name, rest) =>
        match classRanges? name with
        | none    => .error .badClass
        | some rs => do
          let (more, rest) ← bracketItems fuel false rest
          return (rs ++ more, rest)
    | (c, special) :: r               =>
      if c = ']' ∧ special ∧ !first then .ok ([], r)
      else
        match bracketChar? t with
        | none           => .error .isOpen
        | some (a, rest) =>
          match rest with
          | ('-', true) :: (b, x) :: more =>
            if b = ']' ∧ x then do
              let (items, rest) ← bracketItems fuel false rest
              return ((a, a) :: items, rest)
            else match bracketChar? ((b, x) :: more) with
              | none           => .error .isOpen
              | some (b, rest) =>
                if b.toNat < a.toNat then .error .badRange
                else do
                  let (items, rest) ← bracketItems fuel false rest
                  return ((a, b) :: items, rest)
          | _                             => do
            let (items, rest) ← bracketItems fuel false rest
            return ((a, a) :: items, rest)

/-- A bracket expression after its opening bracket; one of `negators` at the start negates it. -/
def readBracket (negators : Text) (t : List Mark) : Except BracketFault (CharSet × List Mark) := do
  let (negated, body) := match t with
    | (c, true) :: r => if c ∈ negators then (true, r) else (false, t)
    | _              => (false, t)
  let (ranges, rest) ← bracketItems (body.length + 1) true body
  return (⟨negated, ranges⟩, rest)

end JavaMend.Host
