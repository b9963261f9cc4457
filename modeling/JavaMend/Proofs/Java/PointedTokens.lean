import JavaMend.Proofs.Java.Tokens
import Mathlib.Data.List.TakeDrop

/-!
# `Proofs.Java.PointedTokens` — tokens that go over a point

Of the digits behind a point a token does not tell more than that they are there: with other digits in their place it is a
token again (`isToken_point`). So code is cut into the same tokens, whichever digits stand behind a point, but for the one
that holds them (`lexemes_point`).

## Contents
- **Digits.** `isDigits_append`, `isMantissa_point`.
- **Numerals.** `decimalAt`, `isDecimal_point`; `hexadecimalAt`, `isHexadecimal_point`.
- **Tokens.** `tokenAt`, `isToken_point`; `tokenAt_of_isToken`.
- **The longest token.** `exists_tokenAt_of_over`, `longest_point`; `lexemes_over`, `lexemes_point`.
-/

namespace JavaMend.Java

open JavaMend Text

/-! ## Digits -/

/-- What may stand behind digits up to the end of them: nothing, or digits and underscores with a digit at the end. -/
def endsDigits (p : Char → Bool) (x : Text) : Bool := x.isEmpty || x.getLast?.any p && x.all fun c => p c || c == '_'

section
variable {p : Char → Bool} {d : Text}

theorem isDigits_append (hne : d ≠ []) (hd : ∀ c ∈ d, p c = true) (x : Text) : isDigits p (d ++ x) = endsDigits p x := by
  have hhead : (d ++ x).head?.any p = true := by
    rw [List.head?_append_of_ne_nil _ hne, List.head?_eq_some_head hne]
    exact hd _ (List.head_mem hne)
  have hall : d.all (fun c => p c || c == '_') = true := List.all_eq_true.2 fun c hc => by rw [hd c hc, Bool.true_or]
  rw [isDigits, hhead, List.all_append, hall, Bool.true_and, Bool.true_and]
  cases x with
  | nil =>
    have hlast : d.getLast?.any p = true := by
      rw [List.getLast?_eq_some_getLast hne]
      exact hd _ (List.getLast_mem hne)
    rw [List.append_nil, hlast]
    rfl
  | cons c x =>
    rw [List.getLast?_append_of_ne_nil _ (by simp)]
    rfl

theorem not_isDigits_of_mem {t : Text} {c : Char} (hp : p c = false) (hline : c ≠ '_') (h : c ∈ t) :
    isDigits p t = false := by
  have hall : (t.all fun c => p c || c == '_') = false := List.all_eq_false.2 ⟨c, h, by simp [hp, hline]⟩
  rw [isDigits, hall, Bool.and_false]

/-- A text is spanned as far as it goes, and then what is behind it. -/
theorem span_append {q : Char → Bool} {s : Text} (hs : s.all q = true) (t : Text) :
    (s ++ t).span q = (s ++ (t.span q).1, (t.span q).2) := by
  rw [List.all_eq_true] at hs
  rw [List.span_eq_takeWhile_dropWhile, List.span_eq_takeWhile_dropWhile, List.takeWhile_append_of_pos hs,
    List.dropWhile_append_of_pos hs]

/-- A text is spanned up to a character that stops. -/
theorem span_of_not {q : Char → Bool} {s : Text} (hs : s.all q = false) :
    ∃ s₁ c s₂, s = s₁ ++ c :: s₂ ∧ q c = false ∧ ∀ t, (s ++ t).span q = (s₁, c :: (s₂ ++ t)) := by
  induction s with
  | nil => cases hs
  | cons a s ih =>
    cases ha : q a with
    | false => exact ⟨[], a, s, rfl, ha, fun t => by simp [List.span_eq_takeWhile_dropWhile, ha]⟩
    | true =>
      rw [List.all_cons, ha, Bool.true_and] at hs
      obtain ⟨s₁, c, s₂, rfl, hc, hspan⟩ := ih hs
      refine ⟨a :: s₁, c, s₂, rfl, hc, fun t => ?_⟩
      have h := hspan t
      rw [List.span_eq_takeWhile_dropWhile] at h ⊢
      obtain ⟨h1, h2⟩ := Prod.mk.inj h
      rw [List.cons_append, List.takeWhile_cons_of_pos ha, List.dropWhile_cons_of_pos ha, h1, h2]

/-- **A mantissa does not tell which digits stand behind its point.** -/
theorem isMantissa_point (hpoint : p '.' = false) (hne : d ≠ []) (hd : ∀ c ∈ d, p c = true) (s x : Text) :
    isMantissa p (s ++ '.' :: (d ++ x)) =
      (s.all (· != '.') && (s.isEmpty || isDigits p s) && endsDigits p x) := by
  unfold isMantissa
  cases hs : s.all (· != '.') with
  | true =>
    have hempty : (d ++ x).isEmpty = false := by simp [hne]
    rw [span_append hs, List.span_eq_takeWhile_dropWhile]
    simp [hempty, isDigits_append hne hd]
  | false =>
    obtain ⟨s₁, c, s₂, -, -, hspan⟩ := span_of_not hs
    have hdigits : isDigits p (s₂ ++ '.' :: (d ++ x)) = false := not_isDigits_of_mem hpoint (by decide) (by simp)
    rw [hspan]
    simp [hdigits]

end

/-! ## Numerals -/

/-- The text before a point and the text behind the digits of its part make up a decimal fraction. -/
def decimalAt (s x : Text) : Bool :=
  s.all (fun c => c != 'e' && c != 'E') && s.all (· != '.') && (s.isEmpty || isDigits isAsciiDigit s) &&
    match (withoutSuffix ['f', 'F', 'd', 'D'] x).span (fun c => c != 'e' && c != 'E') with
    | (y, [])            => endsDigits isAsciiDigit y
    | (y, _ :: exponent) => endsDigits isAsciiDigit y && isExponent exponent

/-- They make up a hexadecimal fraction. -/
def hexadecimalAt : Text → Text → Bool
  | '0' :: a :: s, x =>
    (a == 'x' || a == 'X') &&
      (s.all (fun c => c != 'p' && c != 'P') && s.all (· != '.') && (s.isEmpty || isDigits isHexDigit s) &&
      match x.span (fun c => c != 'p' && c != 'P') with
      | (_, [])            => false
      | (y, _ :: exponent) => endsDigits isHexDigit y && isExponent (withoutSuffix ['f', 'F', 'd', 'D'] exponent))
  | _,             _ => false

theorem isHexDigit_of_isAsciiDigit {c : Char} (h : isAsciiDigit c = true) : isHexDigit c = true := by simp [isHexDigit, h]

/-- A suffix is not looked for in front of what is at the end. -/
theorem withoutSuffix_append {ss s x : Text} (hne : x ≠ []) : withoutSuffix ss (s ++ x) = s ++ withoutSuffix ss x := by
  unfold withoutSuffix
  rw [List.getLast?_append_of_ne_nil _ hne, List.dropLast_append_of_ne_nil hne]
  split <;> rfl

theorem not_isExponent_of_mem {t : Text} (h : '.' ∈ t) : isExponent t = false := by
  have hdigits {t : Text} (h : '.' ∈ t) : isDigits isAsciiDigit t = false := not_isDigits_of_mem (by decide) (by decide) h
  unfold isExponent
  split
  · exact hdigits (by simpa using h)
  · exact hdigits (by simpa using h)
  · exact hdigits h

theorem mem_withoutSuffix {ss t : Text} (hss : '.' ∉ ss) (h : '.' ∈ t) : '.' ∈ withoutSuffix ss t := by
  unfold withoutSuffix
  split
  · rename_i hlast
    obtain ⟨c, hc, hmem⟩ := (Option.any_eq_true _ _).1 hlast
    rw [List.getLast?_eq_some_iff] at hc
    obtain ⟨t, rfl⟩ := hc
    rw [List.dropLast_concat]
    rcases List.mem_append.1 h with h | h
    · exact h
    · rw [List.mem_singleton.1 h] at hss
      exact absurd (by simpa using hmem) hss
  · exact h

/-- What has a point is no integer. -/
theorem not_isInteger_of_mem {p : Char → Bool} (hp : p '.' = false) {t : Text} (h : '.' ∈ t) :
    isDigits p (withoutSuffix ['l', 'L'] t) = false :=
  not_isDigits_of_mem hp (by decide) (mem_withoutSuffix (by decide) h)

/-- The suffix of a fraction is no digit. -/
theorem not_isAsciiDigit_of_suffix {c : Char} (h : c ∈ ['f', 'F', 'd', 'D']) : isAsciiDigit c = false := by
  simp only [List.mem_cons, List.not_mem_nil, or_false] at h
  rcases h with rfl | rfl | rfl | rfl <;> decide

section
variable {d : Text} (hne : d ≠ []) (hd : ∀ c ∈ d, isAsciiDigit c = true)
include hne hd

theorem withoutSuffix_point {ss : Text} (hss : ∀ c ∈ ss, isAsciiDigit c = false) (s x : Text) :
    withoutSuffix ss (s ++ '.' :: (d ++ x)) = s ++ '.' :: (d ++ withoutSuffix ss x) := by
  have hassoc (x : Text) : s ++ '.' :: (d ++ x) = s ++ '.' :: d ++ x := by simp
  rw [hassoc, hassoc]
  by_cases hx : x = []
  · subst hx
    have hlast : (s ++ '.' :: d ++ []).getLast? = some (d.getLast hne) := by
      rw [List.append_nil, List.getLast?_append_of_ne_nil _ (by simp), List.getLast?_eq_some_getLast (by simp),
        List.getLast_cons hne]
    have hmem : d.getLast hne ∉ ss := fun hmem => by
      have hdigit := hd _ (List.getLast_mem hne)
      rw [hss _ hmem] at hdigit
      cases hdigit
    rw [withoutSuffix, hlast]
    simp [hmem, withoutSuffix]
  · exact withoutSuffix_append hx

omit hne in
/-- Neither letter of an exponent is met on the way over a point and its digits. -/
theorem all_point_digits {a b : Char} (ha : isAsciiDigit a = false) (hb : isAsciiDigit b = false)
    (hpoint : ('.' != a && '.' != b) = true) : ('.' :: d).all (fun c => c != a && c != b) = true := by
  refine List.all_eq_true.2 fun c hc => ?_
  rcases List.mem_cons.1 hc with rfl | hc
  · exact hpoint
  · rw [Bool.and_eq_true, bne_iff_ne, bne_iff_ne]
    exact ⟨ne_of_apply_ne isAsciiDigit (by simp [hd c hc, ha]), ne_of_apply_ne isAsciiDigit (by simp [hd c hc, hb])⟩

/-- **A decimal numeral does not tell which digits stand behind its point.** -/
theorem isDecimal_point (s x : Text) : isDecimal (s ++ '.' :: (d ++ x)) = decimalAt s x := by
  have hinteger : isDigits isAsciiDigit (withoutSuffix ['l', 'L'] (s ++ '.' :: (d ++ x))) = false :=
    not_isInteger_of_mem (by decide) (by simp)
  have hpart := all_point_digits hd (a := 'e') (b := 'E') (by decide) (by decide) (by decide)
  rw [isDecimal, hinteger, Bool.false_or, withoutSuffix_point hne hd fun _ => not_isAsciiDigit_of_suffix, decimalAt]
  generalize withoutSuffix ['f', 'F', 'd', 'D'] x = x
  cases hs : s.all (fun c => c != 'e' && c != 'E') with
  | true =>
    rw [span_append hs, ← List.cons_append, span_append hpart]
    have hmantissa (y : Text) := isMantissa_point (p := isAsciiDigit) (by decide) hne hd s y
    cases x.span (fun c => c != 'e' && c != 'E') with | mk y z =>
    cases z with
    | nil => simp [hmantissa]
    | cons c z => simp [hmantissa, Bool.and_assoc]
  | false =>
    obtain ⟨s₁, c, s₂, -, -, hspan⟩ := span_of_not hs
    rw [hspan]
    simp [not_isExponent_of_mem (t := s₂ ++ '.' :: (d ++ x)) (by simp)]

/-- **A hexadecimal numeral does not tell which digits stand behind its point.** -/
theorem isHexadecimal_point (s x : Text) : isHexadecimal (s ++ '.' :: (d ++ x)) = hexadecimalAt s x := by
  have hpart := all_point_digits hd (a := 'p') (b := 'P') (by decide) (by decide) (by decide)
  have hinteger (s : Text) : isDigits isHexDigit (withoutSuffix ['l', 'L'] (s ++ '.' :: (d ++ x))) = false :=
    not_isInteger_of_mem (by decide) (by simp)
  unfold hexadecimalAt
  split
  · rename_i a s
    rw [List.cons_append, List.cons_append, isHexadecimal]
    congr 1
    cases hs : s.all (fun c => c != 'p' && c != 'P') with
    | true =>
      have hall : (s ++ '.' :: (d ++ x)).span (fun c => c != 'p' && c != 'P') =
          (s ++ '.' :: (d ++ (x.span fun c => c != 'p' && c != 'P').1), (x.span fun c => c != 'p' && c != 'P').2) := by
        rw [span_append hs, ← List.cons_append, span_append hpart, List.cons_append]
      have hmantissa (y : Text) :=
        isMantissa_point (p := isHexDigit) (by decide) hne (fun c hc => isHexDigit_of_isAsciiDigit (hd c hc)) s y
      have htext : s ++ '.' :: (d ++ x) = s ++ '.' :: (d ++ (x.span fun c => c != 'p' && c != 'P').1)
          ++ (x.span fun c => c != 'p' && c != 'P').2 := by
        simp [List.span_eq_takeWhile_dropWhile]
      rw [hall]
      cases hx : x.span (fun c => c != 'p' && c != 'P') with | mk y z =>
      cases z with
      | nil =>
        rw [hx, List.append_nil] at htext
        simp only [← htext, hinteger]
        simp
      | cons c z => simp [hmantissa, Bool.and_assoc]
    | false =>
      obtain ⟨s₁, c, s₂, -, -, hspan⟩ := span_of_not hs
      have hexponent : isExponent (withoutSuffix ['f', 'F', 'd', 'D'] (s₂ ++ '.' :: (d ++ x))) = false :=
        not_isExponent_of_mem (mem_withoutSuffix (by decide) (by simp))
      rw [hspan]
      simp [hexponent]
  · rename_i hnot
    unfold isHexadecimal
    split
    · rename_i a t ht
      -- In front of the point there is one character at most.
      obtain _ | ⟨c, _ | ⟨c', s⟩⟩ := s
      · simp at ht
      · obtain ⟨-, rfl, -⟩ : c = '0' ∧ '.' = a ∧ d ++ x = t := by simpa using ht
        rfl
      · obtain ⟨rfl, -⟩ := List.cons_eq_cons.1 ht
        exact absurd rfl (hnot c' s)
    · rfl

/-! ## Tokens -/

omit hne hd

/-- The text before a point and the text behind the digits of its part make up a token. -/
def tokenAt (s x : Text) : Bool :=
  s.all (fun c => !isBlank c) && x.all (fun c => !isBlank c) && (decimalAt s x || hexadecimalAt s x)

theorem not_isAsciiDigit_of_operator {o : Text} (ho : o ∈ operators) {c : Char} (hc : c ∈ o) : isAsciiDigit c = false := by
  have hall : (operators.all fun o => o.all fun c => !isAsciiDigit c) = true := by decide
  simpa using List.all_eq_true.1 (List.all_eq_true.1 hall o ho) c hc

/-- What holds of the point does not hold of a text with a point in it. -/
theorem all_point {q : Char → Bool} (hq : q '.' = false) (s y : Text) : (s ++ '.' :: y).all q = false :=
  List.all_eq_false.2 ⟨'.', by simp, by simp [hq]⟩

theorem not_isIdentifier_point (s y : Text) : isIdentifier (s ++ '.' :: y) = false := by
  rw [isIdentifier, all_point not_isIdentChar_dot, Bool.and_false]

theorem not_isBinary_of_mem {t : Text} (h : '.' ∈ t) : isBinary t = false := by
  unfold isBinary
  split
  · rename_i b t
    rcases List.mem_cons.1 h with h | h
    · cases h
    · rcases List.mem_cons.1 h with rfl | h
      · rfl
      · rw [not_isDigits_of_mem (by decide) (by decide) (mem_withoutSuffix (by decide) h), Bool.and_false]
  · rfl

/-- **A token does not tell which digits stand behind its point.** -/
theorem isToken_point (hne : d ≠ []) (hd : ∀ c ∈ d, isAsciiDigit c = true) (s x : Text) :
    isToken (s ++ '.' :: (d ++ x)) = tokenAt s x := by
  have hblank : d.all (fun c => !isBlank c) = true := by
    refine List.all_eq_true.2 fun c hc => ?_
    rw [not_isBlank_of_inClassName (by simp [inClassName, hd c hc])]
    rfl
  have hoperator : operators.contains (s ++ '.' :: (d ++ x)) = false := by
    obtain ⟨c, rest, rfl⟩ := List.exists_cons_of_ne_nil hne
    refine Bool.eq_false_iff.2 fun hmem => ?_
    have h := not_isAsciiDigit_of_operator (List.contains_iff_mem.1 hmem) (c := c) (by simp)
    rw [hd c (by simp)] at h
    cases h
  rw [isToken, not_isIdentifier_point, not_isBinary_of_mem (by simp), hoperator, isDecimal_point hne hd,
    isHexadecimal_point hne hd, tokenAt, Bool.false_or, Bool.or_false, Bool.or_false, List.all_append, List.all_cons,
    List.all_append, hblank, Bool.true_and, show (!isBlank '.') = true by decide, Bool.true_and]

/-! ### A point at the end -/

theorem not_isHexadecimal_dot (s : Text) : isHexadecimal (s ++ ['.']) = false := by
  unfold isHexadecimal
  split
  · rename_i a t ht
    obtain _ | ⟨c, _ | ⟨c', s⟩⟩ := s
    · simp at ht
    · obtain ⟨-, rfl, -⟩ : c = '0' ∧ '.' = a ∧ [] = t := by simpa using ht
      rfl
    · obtain ⟨-, -, rfl⟩ : c = '0' ∧ c' = a ∧ s ++ ['.'] = t := by simpa using ht
      cases hs : s.all (fun c => c != 'p' && c != 'P') with
      | true =>
        have hdigits : isDigits isHexDigit (withoutSuffix ['l', 'L'] (s ++ ['.'])) = false :=
          not_isInteger_of_mem (by decide) (by simp)
        rw [span_append hs, show (['.'] : Text).span (fun c => c != 'p' && c != 'P') = (['.'], []) by decide]
        simp [hdigits]
      | false =>
        obtain ⟨s₁, c, s₂, -, -, hspan⟩ := span_of_not hs
        have hexponent : isExponent (withoutSuffix ['f', 'F', 'd', 'D'] (s₂ ++ ['.'])) = false :=
          not_isExponent_of_mem (mem_withoutSuffix (by decide) (by simp))
        rw [hspan]
        simp [hexponent]
  · rfl

theorem decimalAt_of_isDecimal {s : Text} (h : isDecimal (s ++ ['.']) = true) : decimalAt s [] = true := by
  have hinteger : isDigits isAsciiDigit (withoutSuffix ['l', 'L'] (s ++ ['.'])) = false :=
    not_isInteger_of_mem (by decide) (by simp)
  have hsuffix : withoutSuffix ['f', 'F', 'd', 'D'] (s ++ ['.']) = s ++ ['.'] := by simp [withoutSuffix]
  rw [isDecimal, hinteger, Bool.false_or, hsuffix] at h
  cases hs : s.all (fun c => c != 'e' && c != 'E') with
  | true =>
    rw [span_append hs, show (['.'] : Text).span (fun c => c != 'e' && c != 'E') = (['.'], []) by decide] at h
    simp only [isMantissa] at h
    cases hpoint : s.all (· != '.') with
    | true =>
      rw [span_append hpoint, show (['.'] : Text).span (· != '.') = ([], ['.']) by decide] at h
      have hdigits : (s.isEmpty || isDigits isAsciiDigit s) = true := by
        simp only [List.append_nil, Bool.and_eq_true] at h
        exact h.1.1
      rw [decimalAt, hs, hpoint, hdigits]
      rfl
    | false =>
      obtain ⟨s₁, c, s₂, -, -, hspan⟩ := span_of_not hpoint
      rw [hspan] at h
      have hdigits : isDigits isAsciiDigit (s₂ ++ ['.']) = false :=
        not_isDigits_of_mem (c := '.') (by decide) (by decide) (by simp)
      simp [hdigits] at h
  | false =>
    obtain ⟨s₁, c, s₂, -, -, hspan⟩ := span_of_not hs
    rw [hspan] at h
    simp [not_isExponent_of_mem (t := s₂ ++ ['.']) (by simp)] at h

/-- A text is empty or ends with a digit. -/
def StopsAtDigit (s : Text) : Prop := ∀ c ∈ s.getLast?, isAsciiDigit c = true

theorem StopsAtDigit.of_suffix {s s' : Text} (hs : StopsAtDigit s) (h : s' <:+ s) : StopsAtDigit s' := by
  by_cases hnil : s' = []
  · subst hnil
    nofun
  · obtain ⟨a, rfl⟩ := h
    rwa [StopsAtDigit, List.getLast?_append_of_ne_nil _ hnil] at hs

/-- **A point behind a digit ends a token only if digits behind it go on with the token**; a point on its own never does. -/
theorem tokenAt_of_isToken {s : Text} (hs : StopsAtDigit s) (h : isToken (s ++ ['.']) = true) : tokenAt s [] = true := by
  by_cases hnil : s = []
  · subst hnil
    exact absurd h (by decide)
  · have hoperator : operators.contains (s ++ ['.']) = false := by
      refine Bool.eq_false_iff.2 fun hmem => ?_
      have hlast := not_isAsciiDigit_of_operator (List.contains_iff_mem.1 hmem) (c := s.getLast hnil) (by simp)
      rw [hs _ (List.getLast?_eq_some_getLast hnil)] at hlast
      cases hlast
    rw [isToken, not_isIdentifier_point, not_isBinary_of_mem (by simp), hoperator, not_isHexadecimal_dot, Bool.and_eq_true,
      List.all_append, Bool.and_eq_true] at h
    rw [tokenAt, h.1.1, decimalAt_of_isDecimal (by simpa using h.2)]
    rfl

end

/-! ## The longest token -/

section
variable {s r : Text}

/-- The text with the digits behind the point that follows `s`. -/
def pointed (s d r : Text) : Text := s ++ '.' :: (d ++ r)

theorem length_pointed (s d r : Text) : (pointed s d r).length = s.length + 1 + d.length + r.length := by
  simp only [pointed, List.length_append, List.length_cons]
  omega

theorem longest_le (t : Text) : longest t ≤ t.length := Nat.findGreatest_le _

/-- Up to a place behind the digits. -/
theorem take_pointed (s d r : Text) (j : Nat) :
    (pointed s d r).take (s.length + 1 + d.length + j) = pointed s d (r.take j) := by
  have hassoc (r : Text) : pointed s d r = (s ++ '.' :: d) ++ r := by simp [pointed]
  have hlength : s.length + 1 + d.length + j = (s ++ '.' :: d).length + j := by
    simp only [List.length_append, List.length_cons]
    omega
  rw [hassoc, hassoc, hlength, List.take_length_add_append]

theorem drop_pointed (s d r : Text) (j : Nat) : (pointed s d r).drop (s.length + 1 + d.length + j) = r.drop j := by
  have h := List.take_append_drop (s.length + 1 + d.length + j) (pointed s d r)
  rw [take_pointed] at h
  have hsame : pointed s d (r.take j) ++ r.drop j = pointed s d r := by simp [pointed]
  exact List.append_cancel_left (h.trans hsame.symm)

/-- Up to a place among the digits. -/
theorem take_pointed_of_le {d : Text} {k : Nat} (hk : k ≤ d.length) (s r : Text) :
    (pointed s d r).take (s.length + 1 + k) = pointed s (d.take k) [] := by
  have hassoc : pointed s d r = (s ++ ['.']) ++ (d ++ r) := by simp [pointed]
  have hlength : s.length + 1 + k = (s ++ ['.']).length + k := by simp
  rw [hassoc, hlength, List.take_length_add_append, List.take_append_of_le_length hk]
  simp [pointed]

/-- A token that goes over the point ends behind so many characters of the rest at most. -/
theorem exists_tokenAt_of_over (hs : StopsAtDigit s) {d : Text} (hne : d ≠ []) (hd : ∀ c ∈ d, isAsciiDigit c = true)
    {n : Nat} (hn : s.length < n) (hle : n ≤ (pointed s d r).length) (htoken : isToken ((pointed s d r).take n) = true) :
    ∃ j ≤ r.length, tokenAt s (r.take j) = true ∧ n ≤ s.length + 1 + d.length + j := by
  have hzero (h : tokenAt s [] = true) (hn : n ≤ s.length + 1 + d.length) :
      ∃ j ≤ r.length, tokenAt s (r.take j) = true ∧ n ≤ s.length + 1 + d.length + j := ⟨0, Nat.zero_le _, h, hn⟩
  rw [length_pointed] at hle
  obtain ⟨k, rfl⟩ : ∃ k, n = s.length + 1 + k := ⟨n - (s.length + 1), by omega⟩
  rcases Nat.lt_or_ge d.length k with hk | hk
  · obtain ⟨j, rfl⟩ : ∃ j, k = d.length + j := ⟨k - d.length, by omega⟩
    rw [← Nat.add_assoc, take_pointed, pointed, isToken_point hne hd] at htoken
    exact ⟨j, by omega, htoken, by omega⟩
  · -- It ends at the point or among the digits, and so could end behind them.
    rw [take_pointed_of_le hk] at htoken
    rcases Nat.eq_zero_or_pos k with rfl | hpos
    · exact hzero (tokenAt_of_isToken hs (by simpa [pointed] using htoken)) (by omega)
    · have htake : d.take k ≠ [] := by simp [hne]; omega
      rw [pointed, isToken_point htake fun c hc => hd c (List.mem_of_mem_take hc)] at htoken
      exact hzero htoken (by omega)

/-- **The longest token stays in front of the point, or goes over it** to a place behind the digits; which of these and where
    does not depend on the digits. -/
theorem longest_point (hs : StopsAtDigit s) (r : Text) :
    (∀ d, d ≠ [] → (∀ c ∈ d, isAsciiDigit c = true) → longest (pointed s d r) = longest s) ∧ tokenAt s [] = false ∨
    ∃ j ≤ r.length, tokenAt s (r.take j) = true ∧
      ∀ d, d ≠ [] → (∀ c ∈ d, isAsciiDigit c = true) → longest (pointed s d r) = s.length + 1 + d.length + j := by
  by_cases hexists : ∃ j ≤ r.length, tokenAt s (r.take j) = true
  · right
    obtain ⟨j, hj, htoken⟩ := hexists
    have hspec := Nat.findGreatest_spec (P := fun j => tokenAt s (r.take j) = true) hj htoken
    have hle := Nat.findGreatest_le (P := fun j => tokenAt s (r.take j) = true) r.length
    refine ⟨_, hle, hspec, fun d hne hd => Nat.le_antisymm (Nat.le_of_not_lt fun hlt => ?_) ?_⟩
    · obtain ⟨i, hi, htoken, hn⟩ := exists_tokenAt_of_over hs (r := r) hne hd (by omega) (longest_le _)
        (isToken_longest (by omega))
      have := Nat.le_findGreatest (P := fun j => tokenAt s (r.take j) = true) hi htoken
      omega
    · refine Nat.le_findGreatest (by rw [length_pointed]; omega) ?_
      rw [take_pointed, pointed, isToken_point hne hd]
      exact hspec
  · left
    refine ⟨fun d hne hd => longest_append (Nat.le_of_not_lt fun hlt => ?_), Bool.eq_false_iff.2 fun h => ?_⟩
    · obtain ⟨j, hj, htoken, -⟩ := exists_tokenAt_of_over hs (r := r) hne hd hlt (longest_le _) (isToken_longest (by omega))
      exact hexists ⟨j, hj, htoken⟩
    · exact hexists ⟨0, Nat.zero_le _, h⟩

/-- The token at the start goes over the point. -/
theorem lexemes_over {d : Text} {c : Char} {t : Text} (hc : isBlank c = false) (ht : pointed s d r = c :: t) {j : Nat}
    (hlongest : longest (pointed s d r) = s.length + 1 + d.length + j) :
    lexemes (pointed s d r) = pointed s d (r.take j) :: lexemes (r.drop j) := by
  have hmunch : munchLength (pointed s d r) = s.length + 1 + d.length + j := by
    rw [munchLength, hlongest]
    omega
  have hdrop := drop_pointed s d r j
  have htake := take_pointed s d r j
  rw [ht] at hmunch hdrop htake ⊢
  rw [lexemes_token hc, hmunch, hdrop, htake]

/-- **Code is cut into the same tokens, whichever digits stand behind a point**, but for the one token that goes over the
    point. -/
theorem lexemes_point (hs : StopsAtDigit s) (r : Text) :
    ∃ front s₁ r₁ r₂, s₁ <:+ s ∧ r = r₁ ++ r₂ ∧ tokenAt s₁ r₁ = true ∧
      ∀ d, d ≠ [] → (∀ c ∈ d, isAsciiDigit c = true) →
        lexemes (pointed s d r) = front ++ pointed s₁ d r₁ :: lexemes r₂ := by
  induction hlength : s.length using Nat.strongRecOn generalizing s with
  | ind n ih =>
    subst hlength
    cases s with
    | nil =>
      obtain ⟨-, hnot⟩ | ⟨j, -, htoken, hlongest⟩ := longest_point hs r
      · exact absurd hnot (by decide)
      · exact ⟨[], [], r.take j, r.drop j, List.suffix_rfl, (List.take_append_drop j r).symm, htoken, fun d hne hd =>
          lexemes_over (by decide) rfl (hlongest d hne hd)⟩
    | cons c s =>
      by_cases hc : isBlank c = true
      · obtain ⟨front, s₁, r₁, r₂, hsuffix, hr, htoken, hlex⟩ :=
          ih s.length (by simp) (hs.of_suffix (List.suffix_cons c s)) rfl
        refine ⟨front, s₁, r₁, r₂, hsuffix.trans (List.suffix_cons c s), hr, htoken, fun d hne hd => ?_⟩
        rw [← hlex d hne hd]
        exact lexemes_blank hc _
      · rw [Bool.not_eq_true] at hc
        obtain ⟨hlongest, -⟩ | ⟨j, -, htoken, hlongest⟩ := longest_point hs r
        · -- The first token stays in front of the point, and the rest is shorter.
          have hone := one_le_munchLength (c :: s)
          have hle := munchLength_le (List.cons_ne_nil c s)
          have hdrop := List.drop_suffix (munchLength (c :: s)) (c :: s)
          obtain ⟨front, s₁, r₁, r₂, hsuffix, hr, htoken, hlex⟩ :=
            ih ((c :: s).drop (munchLength (c :: s))).length (by rw [List.length_drop, List.length_cons] at *; omega)
              (hs.of_suffix hdrop) rfl
          refine ⟨(c :: s).take (munchLength (c :: s)) :: front, s₁, r₁, r₂, hsuffix.trans hdrop, hr, htoken,
            fun d hne hd => ?_⟩
          have hmunch : munchLength (pointed (c :: s) d r) = munchLength (c :: s) := by
            rw [munchLength, munchLength, hlongest d hne hd]
          have hlexemes := lexemes_token hc (s ++ '.' :: (d ++ r))
          change lexemes (pointed (c :: s) d r) =
            (pointed (c :: s) d r).take (munchLength (pointed (c :: s) d r)) ::
              lexemes ((pointed (c :: s) d r).drop (munchLength (pointed (c :: s) d r))) at hlexemes
          rw [hlexemes, hmunch, pointed, List.take_append_of_le_length hle, List.drop_append_of_le_length hle]
          exact congrArg _ (hlex d hne hd)
        · exact ⟨[], c :: s, r.take j, r.drop j, List.suffix_rfl, (List.take_append_drop j r).symm, htoken, fun d hne hd =>
            lexemes_over hc rfl (hlongest d hne hd)⟩

end

end JavaMend.Java
