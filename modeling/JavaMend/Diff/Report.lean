import JavaMend.Diff.Anchor
import JavaMend.Store
import JavaMend.Text.Numerals

/-!
# `Diff.Report` — what became of a patch

A report tells, hunk by hunk, where the hunk was applied or why it was not. Whether the patch as a whole succeeded,
its wording and the numbers shown for a hunk all follow from that.

## Contents
- `Status`, `Refusal`, `Outcome`, `Report`.
- `Outcome.status`, `Outcome.fuzz`, `Outcome.level`, `Outcome.line?`, `Outcome.detail?`.
- `Report.status`, `Report.summary`; `status_eq_failed_iff`.
-/

namespace JavaMend.Diff

open JavaMend Text

/-- How well something went. -/
inductive Status where
  | success
  /-- It went, but not as declared. -/
  | fuzzed
  | failed
deriving DecidableEq, Repr

/-- The word for a status. -/
def Status.word : Status → Text
  | success => text "success"
  | fuzzed  => text "fuzzed"
  | failed  => text "failed"

/-- Why a patch fails as a whole: it cannot even be tried, or its result cannot be kept. -/
inductive Refusal where
  /-- The target is a resource. -/
  | notSource
  /-- There is no such target, and the patch does not create one. -/
  | missing
  /-- The store does not take the text that results. -/
  | notKept (error : StoreError)
deriving DecidableEq

/-- The wording of a refusal. -/
def Refusal.message : Refusal → Text
  | notSource     => text "target is not a source file"
  | missing       => text "target not found in store"
  | notKept error => error.message

/-- What became of a hunk. -/
inductive Outcome where
  /-- Its before image was found and replaced. -/
  | applied (anchor : Anchor)
  /-- Its before image was not found within `window` lines of the place after `expected` lines; `level` is the highest
      level tried. -/
  | notFound (level : Level) (window expected : Nat)
  /-- The patch was not tried. -/
  | refused (refusal : Refusal)
deriving DecidableEq

namespace Outcome

/-- A hunk succeeds if it is applied without fuzz. -/
def status : Outcome → Status
  | applied a   => if a.fuzz = 0 then .success else .fuzzed
  | notFound .. => .failed
  | refused _   => .failed

/-- The amount of fuzz that it took. -/
def fuzz : Outcome → Nat
  | applied a => a.fuzz
  | _         => 0

/-- The level that matched, or the highest one tried. -/
def level : Outcome → Level
  | applied a        => a.level
  | notFound level .. => level
  | refused _        => .exact

/-- The line where the before image was found. -/
def line? : Outcome → Option Nat
  | applied a => some (a.pos + 1)
  | _         => none

/-- Why it failed. -/
def detail? : Outcome → Option Text
  | applied _                  => none
  | notFound _ window expected =>
    some (text "context not found within " ++ ofNat window ++ text " lines of line " ++ ofNat (expected + 1))
  | refused refusal            => some refusal.message

theorem status_eq_failed_iff (o : Outcome) : o.status = .failed ↔ o.line? = none := by
  cases o with
  | applied a => simp only [status, line?]; split <;> simp
  | notFound => simp [status, line?]
  | refused => simp [status, line?]

end Outcome

/-- What became of the hunks of a patch, in their order, and why the patch fails as a whole, if it does. -/
structure Report where
  target : Key
  outcomes : List Outcome
  refusal : Option Refusal
deriving DecidableEq

namespace Report

/-- The hunks with their numbers, from 1. -/
def numbered (r : Report) : List (Nat × Outcome) :=
  r.outcomes.zipIdx.map fun (outcome, i) => (i + 1, outcome)

/-- A patch fails if a hunk does, is fuzzed if a hunk is, and succeeds otherwise. -/
def status (r : Report) : Status :=
  if r.refusal.isSome || r.outcomes.any fun o => o.status == .failed then .failed
  else if r.outcomes.any fun o => o.status == .fuzzed then .fuzzed
  else .success

/-- The hunks that ended with the given status. -/
def withStatus (r : Report) (status : Status) : List (Nat × Outcome) :=
  r.numbered.filter fun h => h.2.status == status

/-- The wording of what failed. -/
def summary (r : Report) : Text :=
  let failures := (r.withStatus .failed).map fun (id, outcome) =>
    text "hunk " ++ ofNat id ++ text " failed at fuzz level " ++ ofNat outcome.level.rank
      ++ (match outcome.detail? with
          | some detail => text " (" ++ detail ++ text ")"
          | none        => [])
  match (r.refusal.map Refusal.message).toList ++ failures with
  | []    => text "status " ++ r.status.word
  | parts => joinWith (text "; ") parts

/-- The wording of a patch that is given up. -/
def failureMessage (r : Report) : Text :=
  text "patch failed for " ++ r.target.text ++ text ": " ++ r.summary

theorem status_eq_failed_iff (r : Report) :
    r.status = .failed ↔ r.refusal.isSome = true ∨ ∃ o ∈ r.outcomes, o.status = .failed := by
  unfold status
  split
  · rename_i h
    simp only [Bool.or_eq_true, List.any_eq_true, beq_iff_eq] at h
    simp [h]
  · rename_i h
    simp only [Bool.or_eq_true, List.any_eq_true, beq_iff_eq] at h
    constructor
    · split <;> simp
    · exact fun h' => absurd h' h

end Report
end JavaMend.Diff
