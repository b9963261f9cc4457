import JavaMend.Text
import JavaMend.Text.Letters

/-!
# `Text.Numerals` — whole numbers in decimal

Reading takes an optional sign and at least one ASCII digit, and refuses a value outside the word that is to
hold it. Writing uses no sign and no leading zero for natural numbers.

## Contents
- `digitsValue?`, `readWord?`, `readInt?`, `ofNat`, `ofInt`.
- `readWord?_ofNat`: a number that fits is read back.
-/

namespace JavaMend.Text

/-- The value of a digit. -/
def digitValue (c : Char) : Nat := c.toNat - 0x30

/-- The value of a nonempty run of ASCII digits. -/
def digitsValue? (t : Text) : Option Nat :=
  if t.isEmpty || !t.all isAsciiDigit then none
  else some (t.foldl (fun n c => 10 * n + digitValue c) 0)

/-- An unsigned number below `2 ^ bits`; a plus sign may precede it. -/
def readWord? (bits : Nat) (t : Text) : Option Nat :=
  let digits := match t with
    | '+' :: r => r
    | r        => r
  (digitsValue? digits).filter (· < Nat.pow 2 bits)

/-- A signed number of 64 bits; a sign may precede it. -/
def readInt? (t : Text) : Option Int :=
  match t with
  | '-' :: r => ((digitsValue? r).filter (· ≤ Nat.pow 2 63)).map fun n => -(n : Int)
  | '+' :: r => ((digitsValue? r).filter (· < Nat.pow 2 63)).map Int.ofNat
  | r        => ((digitsValue? r).filter (· < Nat.pow 2 63)).map Int.ofNat

/-- A natural number in decimal. -/
def ofNat (n : Nat) : Text := Nat.toDigits 10 n

/-- A whole number in decimal. -/
def ofInt (n : Int) : Text := if n < 0 then '-' :: ofNat n.natAbs else ofNat n.natAbs

theorem ofNat_ne_nil (n : Nat) : ofNat n ≠ [] := Nat.toDigits_ne_nil

theorem isAsciiDigit_of_mem_ofNat {n : Nat} {c : Char} (h : c ∈ ofNat n) : isAsciiDigit c = true := by
  have hdigit := Nat.isDigit_of_mem_toDigits (by decide) (by decide) h
  simp only [Char.isDigit, Bool.and_eq_true, decide_eq_true_eq, ge_iff_le, UInt32.le_iff_toNat_le] at hdigit
  simpa [isAsciiDigit] using hdigit

/-- The digits of a number have its value. -/
theorem digitsValue?_ofNat (n : Nat) : digitsValue? (ofNat n) = some n := by
  have hall : (ofNat n).all isAsciiDigit = true := List.all_eq_true.2 fun c => isAsciiDigit_of_mem_ofNat
  have hvalue : (ofNat n).foldl (fun n c => 10 * n + digitValue c) 0 = n :=
    (Nat.ofDigitChars_eq_foldl.symm).trans Nat.ofDigitChars_ten_toDigits
  simp [digitsValue?, ofNat_ne_nil, hall, hvalue]

/-- A number that fits is read back. -/
theorem readWord?_ofNat {bits n : Nat} (h : n < Nat.pow 2 bits) : readWord? bits (ofNat n) = some n := by
  have hplus : '+' ∉ ofNat n := fun hc => absurd (isAsciiDigit_of_mem_ofNat hc) (by decide)
  unfold readWord?
  split
  · rename_i r hr
    exact absurd (hr ▸ List.mem_cons_self) hplus
  · simp only [digitsValue?_ofNat, Option.filter_some, decide_eq_true h, if_true]

end JavaMend.Text
