/-!
# `Text.Ranges` — sets of characters as lists of ranges

A character property beyond ASCII is a table of closed ranges of code points.

## Contents
- `Ranges`, `Ranges.has`, `Ranges.has_iff`.
-/

namespace JavaMend.Text

/-- Closed ranges of code points. -/
abbrev Ranges := List (Nat × Nat)

/-- The character lies in one of the ranges. -/
def Ranges.has (rs : Ranges) (c : Char) : Bool := rs.any fun r => r.1 ≤ c.toNat && c.toNat ≤ r.2

theorem Ranges.has_iff {rs : Ranges} {c : Char} :
    rs.has c = true ↔ ∃ r ∈ rs, r.1 ≤ c.toNat ∧ c.toNat ≤ r.2 := by
  simp [Ranges.has]

end JavaMend.Text
