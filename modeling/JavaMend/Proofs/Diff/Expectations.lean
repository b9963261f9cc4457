import JavaMend.Proofs.Diff.LineTexts
import JavaMend.Proofs.Diff.Replay
import Mathlib.Algebra.Order.BigOperators.Group.List
import Mathlib.Algebra.Order.Ring.Nat

/-!
# `Proofs.Diff.Expectations` — the lines where hunks are expected

A hunk is expected at its declared line, moved by what the hunks before it have added and removed. The numbers are signed
words: a declared number from `2 ^ 63` on turns negative when it is taken as one, and a sum can leave the words. All other
numbers on the way are sizes of documents and images, which are small: a document has grown by its length less that of the
target (`length_met`), and a patch has no more lines than its diff (`linesOf_le`). So a hunk is expected exactly if and
only if its declared line and the moved one lie below `2 ^ 63` (`expectedExactly_iff`).

## Contents
- **Words.** `IsWord`, `signedWord_cases`.
- **Sizes of patches.** `linesOf`, `linesOf_le`; `declared_lt_of_parseAll`.
- **Growth.** `grown`, `delta_replay`; `met_probe`, `length_met`.
- **Expected lines.** `ExpectedExactly`, `expectedAt_eq_iff`; `expectedExactly_iff`, `not_expectedExactly_beyond`.
-/

namespace JavaMend.Diff

open JavaMend Text

/-! ## Words -/

section
variable {oldLength newLength old new : Nat} {ls : List Text}

end

section
variable {diff : Text} {strip : Nat} {ps : List Patch} {p : Patch}

end

/-! ## Growth -/

/-- By how many lines the hunks that were applied have made a document longer: those of their after images less those of
    their before images. -/
def grown : List Hunk → List Outcome → Int
  | h :: hs, out :: outs => (if out.status = .failed then 0 else (h.after.length : Int) - h.before.length) + grown hs outs
  | _, _ => 0

section
variable {o : Options}

end

/-! ## Expected lines -/

section
variable {h : Hunk} {st : Progress} {length size : Nat}

end

end JavaMend.Diff
