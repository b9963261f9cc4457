import JavaMend.Proofs.Java.CallScan
import JavaMend.Proofs.Java.FixedLiterals
import JavaMend.Proofs.Java.NumeralValues
import JavaMend.Proofs.Java.PointedTokens
import Mathlib.Algebra.Order.Field.Rat
import Mathlib.Logic.Relation
import Mathlib.Tactic.FieldSimp
import Mathlib.Tactic.Ring

/-!
# `Proofs.Java.TrimmedFractions` — the numbers of code with trimmed fractions

Trailing zeros are looked for in lines, not in tokens, and are found behind a point that follows digits at the start of a
word. In code such a point lies in a decimal fraction, and the zeros go from it alone: its value, its exponent and its suffix
stay, and so does every other token (`keepsNumbers_trimZeros`).

## Contents
- **Fractions.** `Fraction`, `Fraction.text`, `Fraction.IsLiteral`, `Fraction.value`; `value_zeros`.
- **Tokens.** `Keeps`, `Spared`, `KeepsNumbers`; `SeparatedInFront`, `Untrimmed`.
- **Tokens over a point.** `Loses`; `digits_of_tokenAt`, `exists_end_of_tokenAt`.
- **Fractions that lose zeros.** `Fraction.IsLiteral.text_cut`, `Fraction.IsLiteral.not_spared`; `keeps_zeros`.
- **Reading code.** `Parts.segmentsOf`, `inCodeOf`; `segmentsOf_pushAll`, `inCodeOf_pointed`, `keeps_of_loses`.
- **Lines.** `loses_edited`, `loses_unlines`; `keepsNumbers_trimZeros`, `not_keepsNumbers_exponent`.
-/

namespace JavaMend.Java

open JavaMend Text Relation

/-! ## Fractions -/

/-- The parts of a decimal fraction: the digits before and behind its point, the exponent with its mark, and the suffix. -/
structure Fraction where
  whole : Text
  part : Text
  exponent : Text
  suffix : Text

namespace Fraction

/-- How the fraction is written. -/
def text (f : Fraction) : Text := pointed f.whole f.part (f.exponent ++ f.suffix)

/-- No exponent, or a decimal integer behind the mark of one. -/
def IsMarked (t : Text) : Prop :=
  t = [] ∨ ∃ mark digits, t = mark :: digits ∧ (mark = 'e' ∨ mark = 'E') ∧ isExponent digits = true

/-- No suffix, or one of type. -/
def IsTyped (t : Text) : Prop := t = [] ∨ ∃ c, t = [c] ∧ c ∈ ['f', 'F', 'd', 'D']

/-- The fraction is a literal. There may be no digits before its point, and underscores in the exponent only. -/
structure IsLiteral (f : Fraction) : Prop where
  whole : ∀ c ∈ f.whole, isAsciiDigit c = true
  part_ne_nil : f.part ≠ []
  part : ∀ c ∈ f.part, isAsciiDigit c = true
  exponent : IsMarked f.exponent
  suffix : IsTyped f.suffix

/-- The value of an exponent with its mark. -/
def exponentValue : Text → Int
  | _ :: '-' :: digits => -valueIn 10 (digits.filter isAsciiDigit)
  | _ :: digits        => valueIn 10 (digits.filter isAsciiDigit)
  | []                 => 0

/-- The value of the fraction. -/
def value (f : Fraction) : ℚ :=
  (valueIn 10 (f.whole ++ f.part) : ℚ) / 10 ^ f.part.length * 10 ^ exponentValue f.exponent

end Fraction

theorem valueIn_append_zeros {z : Text} (hz : ∀ c ∈ z, c = '0') (t : Text) :
    valueIn 10 (t ++ z) = valueIn 10 t * 10 ^ z.length := by
  induction z generalizing t with
  | nil => simp
  | cons c z ih =>
    obtain ⟨rfl, hrest⟩ := List.forall_mem_cons.1 hz
    rw [List.append_cons, ih hrest, valueIn, List.foldl_append, ← valueIn, List.length_cons, pow_succ]
    have hzero : digitValue '0' = 0 := by decide
    simp only [List.foldl_cons, List.foldl_nil, hzero]
    ring

/-- **Zeros at the end of its part do not count in the value of a fraction.** -/
theorem value_zeros {z : Text} (hz : ∀ c ∈ z, c = '0') (whole part exponent suffix : Text) :
    (Fraction.mk whole (part ++ z) exponent suffix).value = (Fraction.mk whole part exponent suffix).value := by
  simp only [Fraction.value]
  rw [← List.append_assoc, valueIn_append_zeros hz, List.length_append, pow_add]
  push_cast
  congr 1
  field_simp

/-! ## Tokens -/

/-- **A token keeps its number**: a fraction becomes one of the same value, exponent and suffix, and what is to be spared
    stays as it is. -/
structure Keeps (spared : Text → Prop) (a b : Text) : Prop where
  fraction : ∀ f : Fraction, f.IsLiteral → a = f.text →
    ∃ g : Fraction, g.IsLiteral ∧ b = g.text ∧ g.value = f.value ∧ g.exponent = f.exponent ∧ g.suffix = f.suffix
  same : spared a → b = a

/-- What is not to be changed: a token without a point, a hexadecimal numeral, and the tokens of which it is said. -/
def Spared (also : Text → Prop) (t : Text) : Prop := '.' ∉ t ∨ isHexadecimal t = true ∨ also t

/-- **The tokens in the code of a text keep their numbers**, one by one. -/
def KeepsNumbers (also : Text → Prop) (t t' : Text) : Prop :=
  List.Forall₂ (Keeps (Spared also)) (collectCode lexemes t) (collectCode lexemes t')

/-- There is an underscore in front of the exponent. -/
def SeparatedInFront (t : Text) : Prop := '_' ∈ t.takeWhile fun c => c != 'e' && c != 'E'

/-- A token that loses no zeros: it has an underscore in front of its exponent, or is no fraction. -/
def Untrimmed (t : Text) : Prop := SeparatedInFront t ∨ ¬ ∃ f : Fraction, f.IsLiteral ∧ t = f.text

theorem Keeps.refl (spared : Text → Prop) (a : Text) : Keeps spared a a :=
  ⟨fun f hf ha => ⟨f, hf, ha, rfl, rfl, rfl⟩, fun _ => rfl⟩

theorem Keeps.trans {spared : Text → Prop} {a b c : Text} (hab : Keeps spared a b) (hbc : Keeps spared b c) :
    Keeps spared a c := by
  constructor
  · intro f hf ha
    obtain ⟨g, hg, hb, hvalue, hexponent, hsuffix⟩ := hab.fraction f hf ha
    obtain ⟨k, hk, hc, hvalue', hexponent', hsuffix'⟩ := hbc.fraction g hg hb
    exact ⟨k, hk, hc, hvalue'.trans hvalue, hexponent'.trans hexponent, hsuffix'.trans hsuffix⟩
  · intro ha
    obtain rfl := hab.same ha
    exact hbc.same ha

theorem KeepsNumbers.refl (also : Text → Prop) (t : Text) : KeepsNumbers also t t :=
  List.forall₂_same.2 fun a _ => Keeps.refl _ a

theorem KeepsNumbers.trans {also : Text → Prop} {t t' t'' : Text} (h : KeepsNumbers also t t')
    (h' : KeepsNumbers also t' t'') : KeepsNumbers also t t'' := by
  unfold KeepsNumbers at *
  generalize collectCode lexemes t = as at *
  generalize collectCode lexemes t' = bs at *
  generalize collectCode lexemes t'' = cs at *
  induction h generalizing cs with
  | nil => exact h'
  | cons hab _ ih =>
    cases h' with
    | cons hbc hrest => exact .cons (hab.trans hbc) (ih _ hrest)

/-! ## Tokens over a point -/

theorem digits_append_zeros {p z : Text} (hp : ∀ c ∈ p, isAsciiDigit c = true) (hz : ∀ c ∈ z, c = '0') :
    ∀ c ∈ p ++ z, isAsciiDigit c = true := by
  intro c hc
  rcases List.mem_append.1 hc with hc | hc
  · exact hp c hc
  · rw [hz c hc]
    decide

/-- **A fraction at the start of a word loses zeros** at the end of its part, and a digit stays there. -/
inductive Loses : Text → Text → Prop
  | zeros {v w p z r : Text} : v.getLast?.any isWordChar = false → w ≠ [] → (∀ c ∈ w, isAsciiDigit c = true) → p ≠ [] →
      (∀ c ∈ p, isAsciiDigit c = true) → (∀ c ∈ z, c = '0') → (fractionEnd? r).isSome = true →
      Loses (v ++ pointed w (p ++ z) r) (v ++ pointed w p r)

theorem isWordChar_of_isAsciiDigit {c : Char} (h : isAsciiDigit c = true) : isWordChar c = true := by
  have hsettled := isSettledDigit_of_ascii h
  rw [isSettledDigit, Bool.and_eq_true] at hsettled
  simp [isWordChar, hsettled.1, hsettled.2]

theorem isWordChar_of_isHexDigit {c : Char} (h : isHexDigit c = true) : isWordChar c = true := by
  simp only [isHexDigit, Bool.or_eq_true, Bool.and_eq_true, decide_eq_true_eq] at h
  rcases h with (h | ⟨h1, h2⟩) | ⟨h1, h2⟩
  · exact isWordChar_of_isAsciiDigit h
  · have hlower : isAsciiLower c = true := by
      simp only [isAsciiLower, Bool.and_eq_true, decide_eq_true_eq]
      exact ⟨h1, Nat.le_trans (show c.toNat ≤ 0x66 from h2) (by decide)⟩
    exact isWordChar_of_opensAscii (by simp [opensAscii, hlower])
  · have hupper : isAsciiUpper c = true := by
      simp only [isAsciiUpper, Bool.and_eq_true, decide_eq_true_eq]
      exact ⟨h1, Nat.le_trans (show c.toNat ≤ 0x46 from h2) (by decide)⟩
    exact isWordChar_of_opensAscii (by simp [opensAscii, hupper])

theorem isWordChar_of_isSuffix {c : Char} (h : isSuffix c = true) : isWordChar c = true := by
  simp only [isSuffix, Bool.or_eq_true, beq_iff_eq] at h
  refine isWordChar_of_opensAscii ?_
  rcases h with ((((rfl | rfl) | rfl) | rfl) | rfl) | rfl <;> decide

theorem isWordChar_underscore : isWordChar '_' = true := isWordChar_of_opensAscii (by decide)

theorem isWordChar_of_isDigits {q : Char → Bool} (hq : ∀ c, q c = true → isWordChar c = true) {t : Text}
    (h : (t.isEmpty || isDigits q t) = true) : ∀ c ∈ t, isWordChar c = true := by
  intro c hc
  have hdigits : isDigits q t = true := by
    rcases Bool.or_eq_true_iff.1 h with hempty | hdigits
    · rw [List.isEmpty_iff.1 hempty] at hc
      cases hc
    · exact hdigits
  rw [isDigits, Bool.and_eq_true, List.all_eq_true] at hdigits
  rcases Bool.or_eq_true_iff.1 (hdigits.2 c hc) with hc | hc
  · exact hq c hc
  · rw [eq_of_beq hc]
    exact isWordChar_underscore

theorem isWordChar_of_decimalAt {s x : Text} (h : decimalAt s x = true) : ∀ c ∈ s, isWordChar c = true := by
  rw [decimalAt, Bool.and_eq_true, Bool.and_eq_true] at h
  exact isWordChar_of_isDigits (fun _ => isWordChar_of_isAsciiDigit) h.1.2

theorem isWordChar_of_hexadecimalAt {s x : Text} (h : hexadecimalAt s x = true) : ∀ c ∈ s, isWordChar c = true := by
  unfold hexadecimalAt at h
  split at h
  · rename_i a s
    rw [Bool.and_eq_true, Bool.and_eq_true, Bool.and_eq_true, Bool.or_eq_true, beq_iff_eq, beq_iff_eq] at h
    have hmark : isWordChar a = true := by
      rcases h.1 with rfl | rfl <;> exact isWordChar_of_opensAscii (by decide)
    exact List.forall_mem_cons.2 ⟨isWordChar_of_isAsciiDigit (by decide),
      List.forall_mem_cons.2 ⟨hmark, isWordChar_of_isDigits (fun _ => isWordChar_of_isHexDigit) h.2.1.2⟩⟩
  · cases h

/-- In a token nothing but word characters stands before a point that digits follow. -/
theorem isWordChar_of_tokenAt {s x : Text} (h : tokenAt s x = true) : ∀ c ∈ s, isWordChar c = true := by
  rw [tokenAt, Bool.and_eq_true, Bool.or_eq_true] at h
  exact h.2.elim isWordChar_of_decimalAt isWordChar_of_hexadecimalAt

/-- **A token that goes over the point of a fraction at the start of a word begins with digits of the fraction.** -/
theorem digits_of_tokenAt {v w s x : Text} (hv : v.getLast?.any isWordChar = false)
    (hdigits : ∀ c ∈ w, isAsciiDigit c = true) (hs : s <:+ v ++ w) (htoken : tokenAt s x = true) :
    ∀ c ∈ s, isAsciiDigit c = true := by
  obtain ⟨u, hu⟩ := hs
  rcases List.append_eq_append_iff.1 hu with ⟨a, rfl, rfl⟩ | ⟨b, -, rfl⟩
  · by_cases ha : a = []
    · rw [ha, List.nil_append]
      exact hdigits
    · -- The last character before the fraction would be one of a word.
      rw [List.getLast?_append_of_ne_nil _ ha, List.getLast?_eq_some_getLast ha, Option.any_some] at hv
      have hword := isWordChar_of_tokenAt htoken _ (List.mem_append_left w (List.getLast_mem ha))
      rw [hv] at hword
      cases hword
  · exact fun c hc => hdigits c (List.mem_append_right b hc)

theorem not_hexadecimalAt_of_digits {s : Text} (hs : ∀ c ∈ s, isAsciiDigit c = true) (x : Text) :
    hexadecimalAt s x = false := by
  unfold hexadecimalAt
  split
  · rename_i a s
    have ha := hs a (by simp)
    have hmark : (a == 'x' || a == 'X') = false := by
      refine Bool.eq_false_iff.2 fun hmark => ?_
      rw [Bool.or_eq_true, beq_iff_eq, beq_iff_eq] at hmark
      rcases hmark with rfl | rfl <;> exact absurd ha (by decide)
    rw [hmark, Bool.false_and]
  · rfl

theorem withoutSuffix_spec (ss x : Text) :
    ∃ suffix, x = withoutSuffix ss x ++ suffix ∧ (suffix = [] ∨ ∃ c, suffix = [c] ∧ c ∈ ss) := by
  unfold withoutSuffix
  split
  · rename_i hlast
    obtain ⟨c, hc, hmem⟩ := (Option.any_eq_true _ _).1 hlast
    obtain ⟨y, rfl⟩ := List.getLast?_eq_some_iff.1 hc
    exact ⟨[c], by simp, .inr ⟨c, rfl, by simpa using hmem⟩⟩
  · exact ⟨[], by simp, .inl rfl⟩

/-- **Behind the digits of a decimal fraction stand its exponent and its suffix.** -/
theorem exists_end_of_decimalAt {s x : Text} (hx : ∀ c ∈ x.head?, isAsciiDigit c = false ∧ c ≠ '_')
    (h : decimalAt s x = true) :
    ∃ exponent suffix, x = exponent ++ suffix ∧ Fraction.IsMarked exponent ∧ Fraction.IsTyped suffix := by
  obtain ⟨suffix, hsplit, hsuffix⟩ := withoutSuffix_spec ['f', 'F', 'd', 'D'] x
  rw [decimalAt, List.span_eq_takeWhile_dropWhile, Bool.and_eq_true] at h
  generalize withoutSuffix ['f', 'F', 'd', 'D'] x = y at h hsplit
  subst hsplit
  cases y with
  | nil => exact ⟨[], suffix, rfl, .inl rfl, hsuffix⟩
  | cons c y =>
    refine ⟨c :: y, suffix, rfl, .inr ⟨c, y, rfl, ?_⟩, hsuffix⟩
    obtain ⟨hdigit, hline⟩ := hx c rfl
    by_cases hc : c = 'e' ∨ c = 'E'
    · have hstop : ¬(c != 'e' && c != 'E') = true := by simpa [or_iff_not_imp_left] using hc
      rw [List.takeWhile_cons_of_neg (p := fun c => c != 'e' && c != 'E') hstop,
        List.dropWhile_cons_of_neg (p := fun c => c != 'e' && c != 'E') hstop] at h
      exact ⟨hc, (Bool.and_eq_true_iff.1 h.2).2⟩
    · -- The digits would go on.
      have hends (y : Text) : endsDigits isAsciiDigit (c :: y) = false := by simp [endsDigits, hdigit, hline]
      have hkept : (c != 'e' && c != 'E') = true := by simpa [not_or] using hc
      rw [List.takeWhile_cons_of_pos (p := fun c => c != 'e' && c != 'E') hkept] at h
      have hrest := h.2
      split at hrest
      · rename_i hspan
        rw [← (Prod.mk.inj hspan).1, hends] at hrest
        cases hrest
      · rename_i hspan
        rw [← (Prod.mk.inj hspan).1, hends, Bool.false_and] at hrest
        cases hrest

/-- Behind a fraction no word goes on. -/
theorem head_of_fractionEnd? {r : Text} {c : Char} (h : (fractionEnd? (c :: r)).isSome = true) :
    isSuffix c = true ∨ isWordChar c = false := by
  rw [fractionEnd?] at h
  by_cases hc : isSuffix c = true
  · exact .inl hc
  · right
    rw [if_neg hc] at h
    refine Bool.eq_false_iff.2 fun hword => ?_
    rw [if_pos hword] at h
    cases h

theorem not_isAsciiDigit_of_isSuffix {c : Char} (h : isSuffix c = true) : isAsciiDigit c = false ∧ c ≠ '_' := by
  simp only [isSuffix, Bool.or_eq_true, beq_iff_eq] at h
  rcases h with ((((rfl | rfl) | rfl) | rfl) | rfl) | rfl <;> decide

theorem not_isAsciiDigit_head {r : Text} {c : Char} (h : (fractionEnd? (c :: r)).isSome = true) :
    isAsciiDigit c = false ∧ c ≠ '_' := by
  rcases head_of_fractionEnd? h with hc | hc
  · exact not_isAsciiDigit_of_isSuffix hc
  · refine ⟨Bool.eq_false_iff.2 fun hdigit => ?_, ?_⟩
    · rw [isWordChar_of_isAsciiDigit hdigit] at hc
      cases hc
    · rintro rfl
      rw [isWordChar_underscore] at hc
      cases hc

/-- **What ends a fraction in a token** is an exponent and a suffix. -/
theorem exists_end_of_tokenAt {s r x : Text} (hs : ∀ c ∈ s, isAsciiDigit c = true) (hx : x <+: r)
    (hr : (fractionEnd? r).isSome = true) (htoken : tokenAt s x = true) :
    ∃ exponent suffix, x = exponent ++ suffix ∧ Fraction.IsMarked exponent ∧ Fraction.IsTyped suffix := by
  rw [tokenAt, not_hexadecimalAt_of_digits hs, Bool.or_false, Bool.and_eq_true] at htoken
  refine exists_end_of_decimalAt (fun c hc => ?_) htoken.2
  obtain ⟨y, rfl⟩ := List.head?_eq_some_iff.1 hc
  obtain ⟨u, rfl⟩ := hx
  exact not_isAsciiDigit_head hr

/-- Digits end where other characters follow. -/
theorem digits_append_inj {a b t u : Text} (ha : ∀ c ∈ a, isAsciiDigit c = true) (hb : ∀ c ∈ b, isAsciiDigit c = true)
    (ht : ∀ c ∈ t.head?, isAsciiDigit c = false) (hu : ∀ c ∈ u.head?, isAsciiDigit c = false) (h : a ++ t = b ++ u) :
    a = b ∧ t = u := by
  have htake {a t : Text} (ha : ∀ c ∈ a, isAsciiDigit c = true) (ht : ∀ c ∈ t.head?, isAsciiDigit c = false) :
      (a ++ t).takeWhile isAsciiDigit = a := by
    rw [List.takeWhile_append_of_pos ha]
    cases t with
    | nil => simp
    | cons c t => rw [List.takeWhile_cons_of_neg (by simp [ht c rfl]), List.append_nil]
  have hab : a = b := by rw [← htake ha ht, h, htake hb hu]
  subst hab
  exact ⟨rfl, List.append_cancel_left h⟩

/-! ## Fractions that lose zeros -/

namespace Fraction.IsLiteral

/-- The part of a literal ends with its digits. -/
theorem not_isAsciiDigit_end {f : Fraction} (hf : f.IsLiteral) :
    ∀ c ∈ (f.exponent ++ f.suffix).head?, isAsciiDigit c = false := by
  intro c hc
  rcases hf.exponent with he | ⟨mark, digits, he, hmark, -⟩
  · rw [he, List.nil_append] at hc
    rcases hf.suffix with hsuffix | ⟨d, hsuffix, hd⟩
    · rw [hsuffix] at hc
      cases hc
    · rw [hsuffix] at hc
      obtain rfl : d = c := Option.some.inj hc
      exact not_isAsciiDigit_of_suffix hd
  · rw [he] at hc
    obtain rfl : mark = c := Option.some.inj hc
    rcases hmark with rfl | rfl <;> decide

/-- A literal is cut at its point, and behind the digits of its part. -/
theorem text_cut {f g : Fraction} (hf : f.IsLiteral) (hg : g.IsLiteral) (h : f.text = g.text) :
    f.whole = g.whole ∧ f.part = g.part ∧ f.exponent ++ f.suffix = g.exponent ++ g.suffix := by
  have hpoint (t : Text) : ∀ c ∈ ('.' :: t).head?, isAsciiDigit c = false := by
    rintro c ⟨⟩
    decide
  obtain ⟨hwhole, hrest⟩ := digits_append_inj hf.whole hg.whole (hpoint _) (hpoint _) h
  exact ⟨hwhole, digits_append_inj hf.part hg.part hf.not_isAsciiDigit_end hg.not_isAsciiDigit_end (List.cons.inj hrest).2⟩

/-- There is no underscore in front of its exponent. -/
theorem not_separated {f : Fraction} (hf : f.IsLiteral) : ¬ SeparatedInFront f.text := by
  have hplain {c : Char} (hc : isAsciiDigit c = true ∨ c = '.') : (c != 'e' && c != 'E') = true ∧ c ≠ '_' := by
    rcases hc with hc | rfl
    · refine ⟨?_, ?_⟩
      · rw [Bool.and_eq_true, bne_iff_ne, bne_iff_ne]
        constructor <;> rintro rfl <;> exact absurd hc (by decide)
      · rintro rfl
        exact absurd hc (by decide)
    · decide
  have hfront : ∀ c ∈ f.whole ++ '.' :: f.part, isAsciiDigit c = true ∨ c = '.' := by
    intro c hc
    rcases List.mem_append.1 hc with hc | hc
    · exact .inl (hf.whole c hc)
    · rcases List.mem_cons.1 hc with hc | hc
      · exact .inr hc
      · exact .inl (hf.part c hc)
  have htext : f.text = (f.whole ++ '.' :: f.part) ++ (f.exponent ++ f.suffix) := by simp [Fraction.text, pointed]
  rw [SeparatedInFront, htext, List.takeWhile_append_of_pos fun c hc => (hplain (hfront c hc)).1]
  intro hmem
  rcases List.mem_append.1 hmem with hmem | hmem
  · exact absurd rfl (hplain (hfront _ hmem)).2
  · rcases hf.exponent with he | ⟨mark, digits, he, hmark, -⟩
    · have hsuffix := (List.takeWhile_prefix _).subset hmem
      rw [he, List.nil_append] at hsuffix
      rcases hf.suffix with ht | ⟨c, ht, hc⟩
      · rw [ht] at hsuffix
        cases hsuffix
      · rw [ht] at hsuffix
        obtain rfl : '_' = c := List.mem_singleton.1 hsuffix
        exact absurd hc (by decide)
    · rw [he, List.cons_append, List.takeWhile_cons_of_neg (by rcases hmark with rfl | rfl <;> decide)] at hmem
      cases hmem

/-- **A fraction is not to be spared.** -/
theorem not_spared {f : Fraction} (hf : f.IsLiteral) : ¬ Spared Untrimmed f.text := by
  rintro (hnone | hhex | hseparated | hother)
  · exact absurd (by simp [Fraction.text, pointed]) hnone
  · rw [Fraction.text, pointed, isHexadecimal_point hf.part_ne_nil hf.part, not_hexadecimalAt_of_digits hf.whole] at hhex
    cases hhex
  · exact hf.not_separated hseparated
  · exact hother ⟨f, hf, rfl⟩

end Fraction.IsLiteral

/-- **A fraction keeps its number** when zeros at the end of its part go. -/
theorem keeps_zeros {whole p z exponent suffix : Text} (hlong : (Fraction.mk whole (p ++ z) exponent suffix).IsLiteral)
    (hp : p ≠ []) (hz : ∀ c ∈ z, c = '0') : Keeps (Spared Untrimmed)
      (Fraction.mk whole (p ++ z) exponent suffix).text (Fraction.mk whole p exponent suffix).text where
  fraction f hf ha := by
    obtain ⟨rfl, hpart, hend⟩ := hlong.text_cut hf ha
    refine ⟨⟨f.whole, p, f.exponent, f.suffix⟩, ⟨hf.whole, hp, fun c hc => ?_, hf.exponent, hf.suffix⟩, ?_, ?_, rfl, rfl⟩
    · exact hlong.part c (List.mem_append_left z hc)
    · rw [Fraction.text, hend]
      rfl
    · rw [← value_zeros hz, show p ++ z = f.part from hpart]
  same h := absurd h hlong.not_spared

/-! ## Reading code -/

/-- The segments of parts, the first one of the given kind. -/
def Parts.segmentsOf (k : SegmentKind) (p : Parts) : List Segment := ⟨k, p.rest⟩ :: p.later

/-- What `f` finds in code among segments. -/
def inCodeOf {α : Type} (f : Text → List α) (ss : List Segment) : List α :=
  ss.flatMap fun s => if s.kind = .code then f s.text else []

theorem inCodeOf_cons {α : Type} (f : Text → List α) (s : Segment) (ss : List Segment) :
    inCodeOf f (s :: ss) = (if s.kind = .code then f s.text else []) ++ inCodeOf f ss := List.flatMap_cons

theorem inCodeOf_append {α : Type} (f : Text → List α) (ss ss' : List Segment) :
    inCodeOf f (ss ++ ss') = inCodeOf f ss ++ inCodeOf f ss' := List.flatMap_append

theorem inCodeOf_shown {α : Type} {f : Text → List α} (hnil : f [] = []) (ss : List Segment) :
    inCodeOf f (shown ss) = inCodeOf f ss := by
  induction ss with
  | nil => rfl
  | cons s ss ih =>
    rw [shown, List.filter_cons]
    split
    · rw [inCodeOf_cons, ← shown, ih, inCodeOf_cons]
    · rename_i hs
      have hempty : s.kind = .code ∧ s.text = [] := by simpa using hs
      rw [← shown, ih, inCodeOf_cons, if_pos hempty.1, hempty.2, hnil, List.nil_append]

theorem collectCode_eq {α : Type} {f : Text → List α} (hnil : f [] = []) (t : Text) :
    collectCode f t = inCodeOf f ((partsFrom .code t).segmentsOf .code) := by
  rw [← inCodeOf_shown hnil, collectCode, segments_eq]
  rfl

/-- A character in front goes into the first segment, or it is the end of a segment before. -/
theorem segmentsOf_push (c : Char) (m : Mode) (next : Option Char) : ∃ front,
    (∀ p : Parts, (p.push c m (step m c next).2).segmentsOf m.kind =
      front ++ ⟨(step m c next).2.kind, c :: p.rest⟩ :: p.later) ∨
    front ≠ [] ∧ ∀ p : Parts, (p.push c m (step m c next).2).segmentsOf m.kind =
      front ++ p.segmentsOf (step m c next).2.kind := by
  by_cases hm : m = .code
  · subst hm
    by_cases hnext : (step .code c next).2 = .code
    · exact ⟨[], .inl fun p => by rw [hnext]; rfl⟩
    · exact ⟨[⟨.code, []⟩], .inl fun p => by rw [push_opens _ _ hnext]; rfl⟩
  · by_cases hnext : (step m c next).2 = .code
    · rw [hnext]
      by_cases hc : c = '\n'
      · subst hc
        exact ⟨[⟨m.kind, []⟩], .inl fun p => by rw [push_newline _ hm]; rfl⟩
      · exact ⟨[⟨m.kind, [c]⟩], .inr ⟨by simp, fun p => by rw [push_closes _ _ hm hc]; rfl⟩⟩
    · exact ⟨[], .inl fun p => by rw [push_within _ _ hm hnext, ← kind_step hm hnext]; rfl⟩

/-- **A text in front ends with the beginning of the first segment**, and the segments before do not depend on what is read
    on. -/
theorem segmentsOf_pushAll (m : Mode) (x : Text) : ∃ front u, u <:+ x ∧ (front = [] → u = x) ∧
    ∀ p : Parts, (p.pushAll m x).segmentsOf m.kind = front ++ ⟨(finish m x none).kind, u ++ p.rest⟩ :: p.later := by
  induction x generalizing m with
  | nil => exact ⟨[], [], List.suffix_rfl, fun _ => rfl, fun p => rfl⟩
  | cons c x ih =>
    obtain ⟨front, u, hu, hwhole, hlist⟩ := ih (step m c x.head?).2
    obtain ⟨before, hpush | ⟨hne, hpush⟩⟩ := segmentsOf_push c m x.head?
    · cases front with
      | nil =>
        obtain rfl := hwhole rfl
        refine ⟨before, c :: u, List.suffix_rfl, fun _ => rfl, fun p => ?_⟩
        obtain ⟨hfirst, hlater⟩ := List.cons.inj (hlist p)
        obtain ⟨hkind, hrest⟩ := Segment.mk.inj hfirst
        rw [Parts.pushAll, hpush, finish_cons, Option.or_none, hkind, hrest, hlater, List.cons_append]
      | cons s front =>
        refine ⟨before ++ ⟨s.kind, c :: s.text⟩ :: front, u, hu.trans (List.suffix_cons c x), by simp, fun p => ?_⟩
        obtain ⟨rfl, hlater⟩ := List.cons.inj (hlist p)
        rw [Parts.pushAll, hpush, finish_cons, Option.or_none, hlater, List.append_assoc]
        rfl
    · refine ⟨before ++ front, u, hu.trans (List.suffix_cons c x), fun h => absurd (List.append_eq_nil_iff.1 h).1 hne,
        fun p => ?_⟩
      rw [Parts.pushAll, hpush, hlist, finish_cons, Option.or_none, List.append_assoc]

/-- Behind an inert character, characters that are inert go on with the segment. -/
theorem partsFrom_inert {m : Mode} (hm : m.isProper = true) (hbehind : m.behind = m) {d : Text}
    (hd : ∀ c ∈ d, isInert c = true) (r : Text) :
    partsFrom m (d ++ r) = ⟨d ++ (partsFrom m r).rest, (partsFrom m r).later⟩ := by
  induction d with
  | nil => rfl
  | cons c d ih =>
    obtain ⟨hc, hd⟩ := List.forall_mem_cons.1 hd
    rw [List.cons_append, partsFrom_cons, step_of_isInert hm hc, hbehind, ih hd]
    by_cases hcode : m = .code
    · rw [hcode, push_code]
      rfl
    · rw [push_within _ _ hcode hcode]
      rfl

theorem rest_partsFrom_isPrefix (m : Mode) (t : Text) : (partsFrom m t).rest <+: t := by
  induction t generalizing m with
  | nil => exact List.prefix_rfl
  | cons c t ih =>
    have hrest := List.prefix_cons_inj c |>.2 (ih (step m c t.head?).2)
    rw [partsFrom_cons, Parts.push]
    split
    · split
      · exact hrest
      · exact List.nil_prefix
    · split
      · split
        · exact List.nil_prefix
        · exact ⟨t, rfl⟩
      · exact hrest

/-- **Which digits stand behind a point does not count for the segments**, but for the one that they are in. -/
theorem inCodeOf_pointed {α : Type} {f : Text → List α} (hnil : f [] = []) (v : Text) {w : Text} (hw : w ≠ [])
    (hdigits : ∀ c ∈ w, isAsciiDigit c = true) (r : Text) :
    (∃ found, ∀ d, (∀ c ∈ d, isAsciiDigit c = true) → collectCode f (v ++ pointed w d r) = found) ∨
    ∃ front u x back, u <:+ v ++ w ∧ x <+: r ∧ ∀ d, (∀ c ∈ d, isAsciiDigit c = true) →
      collectCode f (v ++ pointed w d r) = front ++ f (pointed u d x) ++ back := by
  obtain ⟨front, u, hu, -, hlist⟩ := segmentsOf_pushAll .code (v ++ w)
  have hinert {w : Text} (hw : ∀ c ∈ w, isAsciiDigit c = true) : ∀ c ∈ w, isInert c = true :=
    fun c hc => isInert_of_fraction (.inl (hw c hc))
  -- The digits in front of the point lead behind the mode in which they begin.
  obtain ⟨m, hm, hproper, hbehind⟩ : ∃ m, finish .code (v ++ w) none = m ∧ m.isProper = true ∧ m.behind = m := by
    have hproper := isProper_finish (m := .code) rfl v none
    refine ⟨(finish .code v none).behind, ?_, isProper_behind hproper, behind_behind _⟩
    have hrun := finish_run hproper hw (hinert hdigits) [] none
    rwa [finish_append_of_apart (apart_of_isInert (hinert hdigits)), ← List.append_nil w]
  have hread (d : Text) (hd : ∀ c ∈ d, isAsciiDigit c = true) : collectCode f (v ++ pointed w d r) =
      inCodeOf f (front ++ ⟨m.kind, pointed u d (partsFrom m r).rest⟩ :: (partsFrom m r).later) := by
    have hpoint : ∀ c ∈ '.' :: d, isInert c = true := List.forall_mem_cons.2 ⟨by decide, hinert hd⟩
    have htext : v ++ pointed w d r = (v ++ w) ++ ('.' :: d ++ r) := by simp [pointed]
    have hparts := hlist (partsFrom m ('.' :: d ++ r))
    rw [hm, partsFrom_inert hproper hbehind hpoint] at hparts
    rw [collectCode_eq hnil, htext, partsFrom_append .code (v ++ w) (y := '.' :: d ++ r) ⟨by simp, by simp⟩, hm,
      partsFrom_inert hproper hbehind hpoint]
    exact congrArg (inCodeOf f) hparts
  by_cases hcode : m.kind = .code
  · right
    refine ⟨inCodeOf f front, u, (partsFrom m r).rest, inCodeOf f (partsFrom m r).later, hu, rest_partsFrom_isPrefix m r,
      fun d hd => ?_⟩
    rw [hread d hd, inCodeOf_append, inCodeOf_cons, if_pos hcode, List.append_assoc]
  · left
    refine ⟨inCodeOf f front ++ inCodeOf f (partsFrom m r).later, fun d hd => ?_⟩
    rw [hread d hd, inCodeOf_append, inCodeOf_cons, if_neg hcode, List.nil_append]

/-- **The tokens in code keep their numbers** when a fraction loses zeros. -/
theorem keeps_of_loses {t t' : Text} (h : Loses t t') : KeepsNumbers Untrimmed t t' := by
  cases h with
  | @zeros v w p z r hv hw hdigits hp hpart hz hr =>
    have hlong := digits_append_zeros hpart hz
    rw [KeepsNumbers]
    rcases inCodeOf_pointed lexemes_nil v hw hdigits r with ⟨found, hfound⟩ | ⟨front, u, x, back, hu, hx, hread⟩
    · rw [hfound _ hlong, hfound _ hpart]
      exact List.forall₂_same.2 fun a _ => Keeps.refl _ a
    · have hstops : StopsAtDigit (v ++ w) := by
        intro c hc
        rw [List.getLast?_append_of_ne_nil _ hw] at hc
        exact hdigits c (List.mem_of_getLast? hc)
      obtain ⟨before, s, x₁, x₂, hs, rfl, htoken, hlex⟩ := lexemes_point (hstops.of_suffix hu) x
      have htokens := digits_of_tokenAt hv hdigits (hs.trans hu) htoken
      obtain ⟨exponent, suffix, rfl, he, ht⟩ :=
        exists_end_of_tokenAt htokens ((List.prefix_append x₁ x₂).trans hx) hr htoken
      have hkeeps := keeps_zeros ⟨htokens, by simp [hp], hlong, he, ht⟩ hp hz
      have hrefl (l : List Text) : List.Forall₂ (Keeps (Spared Untrimmed)) l l :=
        List.forall₂_same.2 fun a _ => Keeps.refl _ a
      rw [hread _ hlong, hread _ hpart, hlex _ (by simp [hp]) hlong, hlex _ hp hpart]
      exact List.rel_append (List.rel_append (hrefl _) (List.rel_append (hrefl _) (.cons hkeeps (hrefl _)))) (hrefl _)

theorem keepsNumbers_of_loses {t t' : Text} (h : ReflTransGen Loses t t') : KeepsNumbers Untrimmed t t' := by
  induction h with
  | refl => exact .refl _ _
  | tail _ hlose ih => exact ih.trans (keeps_of_loses hlose)

/-! ## Lines -/

/-- Where no word goes on, the end of a fraction is the same. -/
theorem fractionEnd?_append_of_not_word (t : Text) {y : Text} (hy : y.head?.any isWordChar = false) :
    fractionEnd? (t ++ y) = fractionEnd? t := by
  cases t with
  | nil =>
    cases y with
    | nil => rfl
    | cons c y =>
      have hc : isWordChar c = false := hy
      have hsuffix : isSuffix c = false := by
        refine Bool.eq_false_iff.2 fun hsuffix => ?_
        rw [isWordChar_of_isSuffix hsuffix] at hc
        cases hc
      simp [fractionEnd?, hsuffix, hc]
  | cons c t =>
    cases t with
    | nil => simp [fractionEnd?, isBoundary, hy]
    | cons d t => rfl

/-- A word ends at the end of a fraction. -/
theorem isWordChar_getLast_fraction {p suffix : Text} (hne : p ≠ []) (hp : ∀ c ∈ p, isAsciiDigit c = true)
    (hsuffix : ∀ c ∈ suffix, isSuffix c = true) (a : Text) : (a ++ '.' :: (p ++ suffix)).getLast?.any isWordChar = true := by
  have htail : p ++ suffix ≠ [] := by simp [hne]
  rw [List.getLast?_append_of_ne_nil _ (by simp), List.getLast?_cons_of_ne_nil htail, List.getLast?_eq_some_getLast htail,
    Option.any_some]
  rcases List.mem_append.1 (List.getLast_mem htail) with hc | hc
  · exact isWordChar_of_isAsciiDigit (hp _ hc)
  · exact isWordChar_of_isSuffix (hsuffix _ hc)

/-- **What is trimmed in a line loses zeros, fraction by fraction.** What is in front of the place counts for the word that
    ends there only. -/
theorem loses_edited {y : Text} (hy : y.head?.any isWordChar = false) (before : Option Char) (l : Text) {x : Text}
    (hx : x.getLast?.any isWordChar = before.any isWordChar) :
    ReflTransGen Loses (x ++ l ++ y) (x ++ edited findFraction (fun _ short => short) before l ++ y) := by
  induction before, l using pieces_induction faithful_findFraction generalizing x with
  | nil before => simpa [edited, pieces] using ReflTransGen.refl
  | plain before c l hnone ih =>
    have hrest := ih (x := x ++ [c]) (by simp)
    rw [edited_cons_none hnone]
    simpa using hrest
  | hit before m short rest hhit ih =>
    have hbefore : before.any isWordChar = false := by
      refine Bool.eq_false_iff.2 fun h => ?_
      rw [findFraction, if_pos h] at hhit
      cases hhit
    obtain ⟨w, p, z, suffix, rest', hw, hdigits, hp, hpart, hz, hsuffix, hend, hrest, rfl, rfl⟩ :=
      trimFraction?_eq_some (findFraction_eq_some hhit)
    obtain rfl := List.append_cancel_left hrest
    have hword := isWordChar_getLast_fraction hp hpart hsuffix (x ++ w)
    have hword' := isWordChar_getLast_fraction (p := p ++ z) (by simp [hp]) (digits_append_zeros hpart hz) hsuffix w
    have hlater := ih (x := x ++ (w ++ '.' :: (p ++ suffix))) (by rw [hword', ← hword, List.append_assoc])
    have hlose : Loses (x ++ pointed w (p ++ z) (suffix ++ rest ++ y)) (x ++ pointed w p (suffix ++ rest ++ y)) := by
      refine .zeros (hx.trans hbefore) hw hdigits hp hpart hz ?_
      rw [fractionEnd?_append_of_not_word _ hy, hend]
      rfl
    rw [edited_hit faithful_findFraction hhit]
    refine .head (b := x ++ pointed w p (suffix ++ rest ++ y)) ?_ ?_
    · simpa [pointed] using hlose
    · simpa [pointed] using hlater

theorem loses_trimZeros {x y : Text} (hx : x.getLast?.any isWordChar = false) (hy : y.head?.any isWordChar = false)
    (l : Text) : ReflTransGen Loses (x ++ l ++ y) (x ++ trimZeros l ++ y) := by
  rw [trimZeros, substitute_eq_edited]
  exact loses_edited hy none l hx

theorem not_isWordChar_newline : isWordChar '\n' = false := by decide +kernel

/-- **Lines that are trimmed lose zeros**, line by line. -/
theorem loses_unlines {x : Text} (hx : x.getLast?.any isWordChar = false) (ls : List Text) (terminated : Bool) :
    ReflTransGen Loses (x ++ unlines ls terminated) (x ++ unlines (ls.map trimZeros) terminated) := by
  induction ls generalizing x with
  | nil => exact .refl
  | cons l ls ih =>
    cases ls with
    | nil =>
      have hy : (if terminated then ['\n'] else []).head?.any isWordChar = false := by
        cases terminated
        · rfl
        · exact not_isWordChar_newline
      simpa [unlines, joinWith] using loses_trimZeros hx hy l
    | cons k ks =>
      have hline (l k : Text) (ks : List Text) :
          x ++ unlines (l :: k :: ks) terminated = x ++ l ++ '\n' :: unlines (k :: ks) terminated := by
        simp [unlines, joinWith]
      have hfirst := loses_trimZeros hx (y := '\n' :: unlines (k :: ks) terminated) not_isWordChar_newline l
      have hlater := ih (x := x ++ trimZeros l ++ ['\n']) (by simpa using not_isWordChar_newline)
      rw [hline, List.map_cons, List.map_cons, hline]
      refine hfirst.trans ?_
      simpa using hlater

/-- **Trimming lines keeps the numbers in code**: every decimal fraction keeps its value, its exponent and its suffix, and
    every other token stays as it is, be it an integer, a hexadecimal numeral or one with an underscore in front of an
    exponent. -/
theorem keepsNumbers_trimZeros (ls : List Text) (terminated : Bool) :
    KeepsNumbers Untrimmed (unlines ls terminated) (unlines (ls.map trimZeros) terminated) :=
  keepsNumbers_of_loses (loses_unlines (x := []) rfl ls terminated)

/-- A word ends before the sign of an exponent, so underscores behind the sign keep no zeros. -/
theorem not_keepsNumbers_exponent : ¬ KeepsNumbers (fun t => '_' ∈ t) (unlines [text "double d = 1.50e-1_0;"] true)
    (unlines ([text "double d = 1.50e-1_0;"].map trimZeros) true) := by
  have htokens : collectCode lexemes (unlines [text "double d = 1.50e-1_0;"] true) =
      ["double", "d", "=", "1.50e-1_0", ";"].map text := by decide +kernel
  have htrimmed : collectCode lexemes (unlines ([text "double d = 1.50e-1_0;"].map trimZeros) true) =
      ["double", "d", "=", "1.5e-1_0", ";"].map text := by decide +kernel
  rw [KeepsNumbers, htokens, htrimmed]
  intro h
  simp only [List.map_cons, List.forall₂_cons] at h
  exact absurd (h.2.2.2.1.same (.inr (.inr (by decide)))) (by decide)

end JavaMend.Java
