import JavaMend.Text.Bytes
import JavaMend.Text.Order

/-!
# `Proofs.ByteOrder` — the order of texts is the order of their bytes

UTF-8 writes a greater character with a greater leading byte, or with the same one and greater bytes behind it; so bytes
compare as the characters do, whatever follows.

## Contents
- **Characters.** `utf8EncodeChar_append_lt`.
- **Texts.** `utf8_lt_of_before`, `before_iff_utf8_lt`.
-/

namespace JavaMend.Text

/-! ## Characters -/

/-- Numbers compare by their higher digits, and by the last one where these are the same. -/
theorem lt_cases_digit {m n : Nat} (h : m < n) : m / 64 < n / 64 ∨ m / 64 = n / 64 ∧ m % 64 < n % 64 := by omega

/-- A character before another one has the lesser bytes, whatever follows them. -/
theorem utf8EncodeChar_append_lt {a b : Char} (h : a.toNat < b.toNat) (x y : Bytes) :
    String.utf8EncodeChar a ++ x < String.utf8EncodeChar b ++ y := by
  have hb : b.toNat < 0x110000 := by
    have := b.valid
    simp only [Char.toNat, UInt32.isValidChar, Nat.isValidChar] at this ⊢
    omega
  simp only [Char.toNat] at h hb
  unfold String.utf8EncodeChar
  generalize a.val.toNat = m at h
  generalize b.val.toNat = n at h hb
  have hlt {u v : Nat} (hu : u < 256) (hv : v < 256) : UInt8.ofNat u < UInt8.ofNat v ↔ u < v := by
    rw [UInt8.lt_iff_toNat_lt, UInt8.toNat_ofNat_of_lt' hu, UInt8.toNat_ofNat_of_lt' hv]
  have heq {u v : Nat} (hu : u < 256) (hv : v < 256) : UInt8.ofNat u = UInt8.ofNat v ↔ u = v := by
    rw [← UInt8.toNat_inj, UInt8.toNat_ofNat_of_lt' hu, UInt8.toNat_ofNat_of_lt' hv]
  have hdigits (k : Nat) : k / 4096 = k / 64 / 64 ∧ k / 262144 = k / 64 / 64 / 64 := by simp [Nat.div_div_eq_div_mul]
  obtain ⟨hm, hm'⟩ := hdigits m
  obtain ⟨hn, hn'⟩ := hdigits n
  simp only
  -- One case for each pair of lengths; leading bytes of different lengths tell which is less.
  repeat' split
  all_goals simp (disch := omega) only [List.cons_append, List.nil_append, List.cons_lt_cons_iff, hlt, heq]
  all_goals try omega
  -- Both take four bytes, and one of the digits differs first.
  rcases lt_cases_digit h with h1 | ⟨h1, h0⟩
  · rcases lt_cases_digit h1 with h2 | ⟨h2, h1⟩
    · rcases lt_cases_digit h2 with h3 | ⟨h3, h2⟩ <;> omega
    · omega
  · omega

/-! ## Texts -/

theorem utf8_cons (c : Char) (t : Text) : utf8 (c :: t) = String.utf8EncodeChar c ++ utf8 t := rfl

theorem utf8_lt_of_before {s t : Text} (h : before s t = true) : utf8 s < utf8 t := by
  unfold before at h
  induction s generalizing t with
  | nil =>
    cases t with
    | nil => cases h
    | cons b t =>
      obtain ⟨x, xs, hx⟩ := List.exists_cons_of_ne_nil (fun h => String.utf8EncodeChar_ne_nil h : String.utf8EncodeChar b ≠ [])
      rw [utf8_cons, hx]
      exact List.nil_lt_cons _ _
  | cons a s ih =>
    cases t with
    | nil => cases h
    | cons b t =>
      rw [utf8_cons, utf8_cons]
      unfold lexBefore at h
      split at h
      · rename_i hab
        rw [hab]
        exact List.append_left_lt (ih h)
      · exact utf8EncodeChar_append_lt (charBefore_iff.1 h) _ _

/-- **The order of texts is that of their bytes.** -/
theorem before_iff_utf8_lt {s t : Text} : before s t = true ↔ utf8 s < utf8 t := by
  refine ⟨utf8_lt_of_before, fun h => ?_⟩
  cases hbefore : before s t with
  | true => rfl
  | false =>
    by_cases hst : s = t
    · subst hst
      exact absurd h (List.lt_irrefl _)
    · exact absurd h (List.lt_asymm (utf8_lt_of_before (before_total hst hbefore)))

end JavaMend.Text
