import JavaMend.Text

/-!
# `Text.Order` — the order of texts

Texts are ordered by their first difference, and lists of texts likewise. The order of characters is that of their
numbers, so that the order of texts is that of their bytes in UTF-8.

## Contents
- `lexBefore`: the order of lists; `lexBefore_irrefl`, `lexBefore_trans`, `lexBefore_total`.
- `before`, `atMost`: the order of texts; `before_irrefl`, `before_trans`, `before_total`; `atMost_iff`, `atMost_total`,
  `atMost_trans`, `atMost_antisymm`.
- `pathBefore`: the order of lists of texts.
-/

namespace JavaMend

/-! ## Lists -/

/-- The order of lists by their first difference; a list goes before its continuations. -/
def lexBefore {α : Type} [DecidableEq α] (lt : α → α → Bool) : List α → List α → Bool
  | _,      []     => false
  | [],     _ :: _ => true
  | a :: s, b :: t => if a = b then lexBefore lt s t else lt a b

section
variable {α : Type} [DecidableEq α] {lt : α → α → Bool}

theorem lexBefore_irrefl (s : List α) : lexBefore lt s s = false := by
  induction s with
  | nil => rfl
  | cons a s ih => simp [lexBefore, ih]

theorem lexBefore_trans (irrefl : ∀ a, lt a a = false) (trans : ∀ {a b c}, lt a b = true → lt b c = true → lt a c = true)
    {s t u : List α} (h1 : lexBefore lt s t = true) (h2 : lexBefore lt t u = true) : lexBefore lt s u = true := by
  induction s generalizing t u with
  | nil =>
    cases u with
    | nil => cases t <;> simp [lexBefore] at h2
    | cons c u => rfl
  | cons a s ih =>
    cases t with
    | nil => simp [lexBefore] at h1
    | cons b t =>
      cases u with
      | nil => simp [lexBefore] at h2
      | cons c u =>
        unfold lexBefore at h1 h2 ⊢
        by_cases hab : a = b
        · rw [if_pos hab] at h1
          by_cases hbc : b = c
          · rw [if_pos hbc] at h2
            rw [if_pos (hab.trans hbc)]
            exact ih h1 h2
          · rw [if_neg hbc] at h2
            rw [if_neg (hab ▸ hbc), hab]
            exact h2
        · rw [if_neg hab] at h1
          by_cases hbc : b = c
          · rw [if_neg (hbc ▸ hab), ← hbc]
            exact h1
          · rw [if_neg hbc] at h2
            have hac : a ≠ c := by
              intro h
              have := trans h1 h2
              rw [h, irrefl] at this
              exact Bool.false_ne_true this
            rw [if_neg hac]
            exact trans h1 h2

theorem lexBefore_total (total : ∀ {a b}, a ≠ b → lt a b = false → lt b a = true) {s t : List α} (hne : s ≠ t)
    (h : lexBefore lt s t = false) : lexBefore lt t s = true := by
  induction s generalizing t with
  | nil =>
    cases t with
    | nil => exact absurd rfl hne
    | cons b t => simp [lexBefore] at h
  | cons a s ih =>
    cases t with
    | nil => rfl
    | cons b t =>
      unfold lexBefore at h ⊢
      by_cases hab : a = b
      · rw [if_pos hab] at h
        rw [if_pos hab.symm]
        exact ih (fun e => hne (by rw [hab, e])) h
      · rw [if_neg hab] at h
        rw [if_neg fun e => hab e.symm]
        exact total hab h

end

namespace Text

/-! ## Texts -/

/-- The order of characters. -/
def charBefore (a b : Char) : Bool := Nat.blt a.toNat b.toNat

/-- The order of texts. -/
def before (s t : Text) : Bool := lexBefore charBefore s t

/-- The first text goes before the second or is the same. -/
def atMost (s t : Text) : Bool := !before t s

/-- The order of lists of texts. -/
def pathBefore (p q : List Text) : Bool := lexBefore before p q

theorem charBefore_iff {a b : Char} : charBefore a b = true ↔ a.toNat < b.toNat :=
  ⟨Nat.le_of_ble_eq_true, Nat.ble_eq_true_of_le⟩

theorem charBefore_irrefl (a : Char) : charBefore a a = false :=
  Bool.eq_false_iff.2 fun h => Nat.lt_irrefl _ (charBefore_iff.1 h)

theorem charBefore_trans {a b c : Char} (h1 : charBefore a b = true) (h2 : charBefore b c = true) :
    charBefore a c = true :=
  charBefore_iff.2 (Nat.lt_trans (charBefore_iff.1 h1) (charBefore_iff.1 h2))

theorem charBefore_total {a b : Char} (hne : a ≠ b) (h : charBefore a b = false) : charBefore b a = true := by
  refine charBefore_iff.2 (Nat.lt_of_le_of_ne ?_ fun e => hne ?_)
  · exact Nat.not_lt.1 fun hlt => by rw [charBefore_iff.2 hlt] at h; exact Bool.noConfusion h
  · exact Char.ext (UInt32.toNat_inj.1 e.symm)

theorem before_irrefl (t : Text) : before t t = false := lexBefore_irrefl t

theorem before_trans {s t u : Text} (h1 : before s t = true) (h2 : before t u = true) : before s u = true :=
  lexBefore_trans charBefore_irrefl charBefore_trans h1 h2

theorem before_total {s t : Text} (hne : s ≠ t) (h : before s t = false) : before t s = true :=
  lexBefore_total charBefore_total hne h

theorem atMost_iff {s t : Text} : atMost s t = true ↔ s = t ∨ before s t = true := by
  rw [atMost, Bool.not_eq_true']
  constructor
  · intro h
    by_cases hst : s = t
    · exact .inl hst
    · exact .inr (before_total (Ne.symm hst) h)
  · rintro (rfl | h)
    · exact before_irrefl s
    · refine Bool.eq_false_iff.2 fun h' => ?_
      have hself := before_trans h h'
      rw [before_irrefl] at hself
      exact Bool.false_ne_true hself

theorem atMost_total (s t : Text) : atMost s t = true ∨ atMost t s = true := by
  cases h : before t s with
  | false => exact .inl (by rw [atMost, h]; rfl)
  | true => exact .inr (atMost_iff.2 (.inr h))

theorem atMost_trans (s t u : Text) (h1 : atMost s t = true) (h2 : atMost t u = true) : atMost s u = true := by
  rcases atMost_iff.1 h1 with rfl | h1
  · exact h2
  · rcases atMost_iff.1 h2 with rfl | h2
    · exact atMost_iff.2 (.inr h1)
    · exact atMost_iff.2 (.inr (before_trans h1 h2))

theorem atMost_antisymm {s t : Text} (h1 : atMost s t = true) (h2 : atMost t s = true) : s = t := by
  rcases atMost_iff.1 h1 with h | h
  · exact h
  · rw [atMost, h] at h2
    exact absurd h2 (by decide)

end Text
end JavaMend
