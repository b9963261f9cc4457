import JavaMend.Text.Numerals
import JavaMend.Text.Order

/-!
# `Diff.Fragments` — the files of a patch folder

In a patch folder a file `x.patch` opens a group, and files `x.patch.suffix` go on with it: numbered ones first, in
the order of their numbers, then the others in the order of their names.

## Contents
- `isBase`, `suffix?`: the roles of a file name.
- `suffixLe`, `sortBy`: the order of continuations.
- `Group`, `groups`.
-/

namespace JavaMend.Diff

open JavaMend Text

/-- The name opens a group. -/
def isBase (name : Text) : Bool := endsWith (text ".patch") name

/-- The suffix of a name that goes on with the group of `base`. -/
def suffix? (base name : Text) : Option Text :=
  if isBase name then none else dropPrefix? (base ++ ['.']) name

/-- Numbers go before other suffixes. -/
def suffixLe (a b : Text) : Bool :=
  match readWord? 64 a, readWord? 64 b with
  | some m, some n => decide (m ≤ n)
  | some _, none   => true
  | none,   some _ => false
  | none,   none   => atMost a b

/-- Put an item in its place in an order; it goes before its equals. -/
def insertBy {α : Type} (le : α → α → Bool) (x : α) : List α → List α
  | []      => [x]
  | y :: ys => if le x y then x :: y :: ys else y :: insertBy le x ys

/-- Sort items; equals stay in their order. -/
def sortBy {α : Type} (le : α → α → Bool) (xs : List α) : List α := xs.foldr (insertBy le) []

/-- A base with the names of its files, the base first. -/
structure Group where
  base : Text
  names : List Text
deriving DecidableEq, Repr

/-- The group of a base among sorted names. -/
def groupOf (sorted : List Text) (base : Text) : Group :=
  let found := sorted.filterMap fun name => (suffix? base name).map fun suffix => (suffix, name)
  ⟨base, base :: (sortBy (fun a b => suffixLe a.1 b.1) found).map (·.2)⟩

/-- The groups of the files with the given names, in the order of their bases. -/
def groups (names : List Text) : List Group :=
  let sorted := sortBy atMost names
  (sorted.filter isBase).map (groupOf sorted)

theorem mem_insertBy {α : Type} {le : α → α → Bool} {x y : α} {ys : List α} :
    y ∈ insertBy le x ys ↔ y = x ∨ y ∈ ys := by
  induction ys with
  | nil => simp [insertBy]
  | cons z zs ih =>
    unfold insertBy
    split
    · simp
    · simp only [List.mem_cons, ih]
      exact ⟨fun h => by rcases h with h | h | h <;> simp [h], fun h => by rcases h with h | h | h <;> simp [h]⟩

/-- Sorting keeps the items. -/
theorem mem_sortBy {α : Type} {le : α → α → Bool} {y : α} {xs : List α} : y ∈ sortBy le xs ↔ y ∈ xs := by
  induction xs with
  | nil => simp [sortBy]
  | cons x xs ih =>
    simp only [sortBy, List.foldr_cons] at ih ⊢
    rw [mem_insertBy, ih, List.mem_cons]

end JavaMend.Diff
