import JavaMend.Proofs.Java.RenamedNames
import JavaMend.Proofs.Java.TidiedLines
import Mathlib.Data.Nat.Find

/-!
# `Proofs.Java.Tokens` — the tokens of code

Code is read as a row of tokens, each the longest at its place. White space parts tokens, and two stretches of code that
meet keep their tokens unless one goes over the place where they meet.

## Contents
- **Numerals.** `isDigits`, `isMantissa`, `isExponent`; `isDecimal`, `isHexadecimal`, `isBinary`.
- **Tokens.** `operators`, `isToken`, `munchLength`, `lexemes`.
- **The longest token.** `munchLength_append`.
- **Stretches that meet.** `Crosses`; `lexemes_append_or`, `lexemes_append`, `lexemes_append_of_prefix`.
- **White space.** `parting_lexemes`.
-/

namespace JavaMend.Java

open JavaMend Text

/-! ## Numerals -/

/-- Digits, with underscores between them. -/
def isDigits (p : Char → Bool) (t : Text) : Bool := t.head?.any p && t.getLast?.any p && t.all fun c => p c || c == '_'

/-- A text without its last character, if that is one of the suffixes. -/
def withoutSuffix (suffixes t : Text) : Text := if t.getLast?.any (· ∈ suffixes) then t.dropLast else t

/-- Digits with a point at an end or between them, or without one. -/
def isMantissa (p : Char → Bool) (t : Text) : Bool :=
  match t.span (· != '.') with
  | (whole, [])        => isDigits p whole
  | (whole, _ :: part) =>
    (whole.isEmpty || isDigits p whole) && (part.isEmpty || isDigits p part) && !(whole.isEmpty && part.isEmpty)

/-- A decimal integer, perhaps with a sign. -/
def isExponent : Text → Bool
  | '+' :: t => isDigits isAsciiDigit t
  | '-' :: t => isDigits isAsciiDigit t
  | t        => isDigits isAsciiDigit t

/-- A hexadecimal digit. -/
def isHexDigit (c : Char) : Bool := isAsciiDigit c || ('a' ≤ c && c ≤ 'f') || ('A' ≤ c && c ≤ 'F')

/-- A decimal or octal integer, or a decimal fraction. -/
def isDecimal (t : Text) : Bool :=
  isDigits isAsciiDigit (withoutSuffix ['l', 'L'] t) ||
    match (withoutSuffix ['f', 'F', 'd', 'D'] t).span (fun c => c != 'e' && c != 'E') with
    | (mantissa, [])            => isMantissa isAsciiDigit mantissa
    | (mantissa, _ :: exponent) => isMantissa isAsciiDigit mantissa && isExponent exponent

/-- A hexadecimal integer, or a hexadecimal fraction with its exponent. -/
def isHexadecimal : Text → Bool
  | '0' :: x :: t =>
    (x == 'x' || x == 'X') &&
      match t.span (fun c => c != 'p' && c != 'P') with
      | (digits, [])              => isDigits isHexDigit (withoutSuffix ['l', 'L'] digits)
      | (mantissa, _ :: exponent) =>
        isMantissa isHexDigit mantissa && isExponent (withoutSuffix ['f', 'F', 'd', 'D'] exponent)
  | _ => false

/-- A binary integer. -/
def isBinary : Text → Bool
  | '0' :: b :: t => (b == 'b' || b == 'B') && isDigits (fun c => c == '0' || c == '1') (withoutSuffix ['l', 'L'] t)
  | _             => false

/-! ## Tokens -/

/-- The separators and operators of more than one character. -/
def operators : List Text :=
  ["...", "::", "->", "==", ">=", "<=", "!=", "&&", "||", "++", "--", "<<", ">>", ">>>", "+=", "-=", "*=", "/=", "&=",
    "|=", "^=", "%=", "<<=", ">>=", ">>>="].map String.toList

/-- An identifier or keyword, a numeral, or an operator. No token holds white space. -/
def isToken (t : Text) : Bool :=
  t.all (fun c => !isBlank c) && (isIdentifier t || isDecimal t || isHexadecimal t || isBinary t || operators.contains t)

/-- The length of the longest token at the start of a text, and zero if there is none. -/
def longest (t : Text) : Nat := Nat.findGreatest (fun n => isToken (t.take n) = true) t.length

/-- What is taken for a token at the start of a text: the longest one, or a character on its own. -/
def munchLength (t : Text) : Nat := max 1 (longest t)

section
-- The equations of the function take seconds to derive if white space can be unfolded.
attribute [local irreducible] isBlank

/-- The tokens of code. -/
def lexemes : Text → List Text
  | []     => []
  | c :: t =>
    if isBlank c then lexemes t
    else (c :: t).take (munchLength (c :: t)) :: lexemes ((c :: t).drop (munchLength (c :: t)))
termination_by t => t.length
decreasing_by
  · simp
  · simp only [List.length_drop, List.length_cons, munchLength]
    omega

theorem lexemes_nil : lexemes [] = [] := by rw [lexemes]

theorem lexemes_blank {c : Char} (hc : isBlank c = true) (t : Text) : lexemes (c :: t) = lexemes t := by
  rw [lexemes, if_pos hc]

theorem lexemes_token {c : Char} (hc : isBlank c = false) (t : Text) : lexemes (c :: t) =
    (c :: t).take (munchLength (c :: t)) :: lexemes ((c :: t).drop (munchLength (c :: t))) := by
  rw [lexemes, if_neg (by simp [hc])]

end

example : lexemes (text "x+++=a.b>>>=1_0.5e-3f-0x1Fp2;") =
    ["x", "++", "+=", "a", ".", "b", ">>>=", "1_0.5e-3f", "-", "0x1Fp2", ";"].map text := by decide +kernel

theorem not_isBlank_of_isToken {t : Text} (h : isToken t = true) : ∀ c ∈ t, isBlank c = false := by
  rw [isToken, Bool.and_eq_true, List.all_eq_true] at h
  intro c hc
  simpa using h.1 c hc

/-! ## The longest token -/

theorem one_le_munchLength (t : Text) : 1 ≤ munchLength t := le_max_left _ _

theorem munchLength_le {t : Text} (hne : t ≠ []) : munchLength t ≤ t.length :=
  max_le (List.length_pos_iff.2 hne) (Nat.findGreatest_le _)

theorem length_take_munchLength {t : Text} (hne : t ≠ []) : (t.take (munchLength t)).length = munchLength t := by
  rw [List.length_take, min_eq_left (munchLength_le hne)]

theorem isToken_longest {t : Text} (h : longest t ≠ 0) : isToken (t.take (longest t)) = true :=
  Nat.findGreatest_of_ne_zero rfl h

/-- With more text behind it, the longest token stays if it does not go over the end. -/
theorem longest_append {t x : Text} (h : longest (t ++ x) ≤ t.length) : longest (t ++ x) = longest t := by
  have hsame {n : Nat} (hn : n ≤ t.length) : (t ++ x).take n = t.take n := List.take_append_of_le_length hn
  refine (Nat.findGreatest_eq_iff.2 ⟨h, fun hne => ?_, fun n hlt hn => ?_⟩).symm
  · rw [← hsame h]
    exact isToken_longest hne
  · rw [← hsame hn]
    exact Nat.findGreatest_is_greatest hlt (by rw [List.length_append]; omega)

/-- **With more text behind it** what is taken for a token stays, or it is a token that goes over the end. -/
theorem munchLength_append {t : Text} (hne : t ≠ []) (x : Text) :
    munchLength (t ++ x) = munchLength t
      ∨ t.length < munchLength (t ++ x) ∧ isToken ((t ++ x).take (munchLength (t ++ x))) = true := by
  by_cases hle : longest (t ++ x) ≤ t.length
  · exact .inl (congrArg (max 1) (longest_append hle))
  · have hpos := List.length_pos_iff.2 hne
    have hlength : munchLength (t ++ x) = longest (t ++ x) := max_eq_right (by omega)
    rw [hlength]
    exact .inr ⟨by omega, isToken_longest (by omega)⟩

/-! ## Stretches that meet -/

/-- A token goes over the place where two stretches of code meet. -/
def Crosses (a x : Text) : Prop := ∃ s w, s ≠ [] ∧ w ≠ [] ∧ s <:+ a ∧ w <+: x ∧ isToken (s ++ w) = true

theorem Crosses.of_suffix {a b x : Text} (hab : a <:+ b) (h : Crosses a x) : Crosses b x := by
  obtain ⟨s, w, hs, hw, hsa, hwx, htoken⟩ := h
  exact ⟨s, w, hs, hw, hsa.trans hab, hwx, htoken⟩

/-- **Two stretches that meet keep their tokens, or one goes over the place where they meet**: there the tokens are others
    than those of the first stretch. -/
theorem lexemes_append_or (a x : Text) : lexemes (a ++ x) = lexemes a ++ lexemes x
    ∨ Crosses a x ∧ ∃ front u v back back', u ≠ v ∧ lexemes a = front ++ u :: back
      ∧ lexemes (a ++ x) = front ++ v :: back' := by
  fun_induction lexemes a with
  | case1 => exact .inl rfl
  | case2 c a hc ih =>
    rw [List.cons_append, lexemes_blank hc]
    exact ih.imp_right (And.imp_left (Crosses.of_suffix (List.suffix_cons c a)))
  | case3 c a hc ih =>
    have hne : c :: a ≠ [] := by simp
    have hlex := lexemes_token (Bool.eq_false_iff.2 hc) (a ++ x)
    rw [← List.cons_append] at hlex
    rw [hlex]
    rcases munchLength_append hne x with hsame | ⟨hlt, htoken⟩
    · -- The first token stays.
      have hle := munchLength_le hne
      rw [hsame, List.take_append_of_le_length hle, List.drop_append_of_le_length hle]
      rcases ih with hrest | ⟨hcross, front, u, v, back, back', hdiff, hback, hback'⟩
      · exact .inl (by rw [hrest, List.cons_append])
      · refine .inr ⟨hcross.of_suffix (List.drop_suffix _ _), (c :: a).take (munchLength (c :: a)) :: front, u, v, back,
          back', hdiff, ?_, ?_⟩
        · rw [hback, List.cons_append]
        · rw [hback', List.cons_append]
    · -- The first token takes all of the stretch, and more.
      refine .inr ⟨?_, [], (c :: a).take (munchLength (c :: a)), (c :: a ++ x).take (munchLength (c :: a ++ x)), _, _, ?_,
        rfl, rfl⟩
      · rw [List.take_append, List.take_of_length_le (by omega)] at htoken
        refine ⟨c :: a, x.take (munchLength (c :: a ++ x) - (c :: a).length), hne, ?_, List.suffix_rfl,
          List.take_prefix _ _, htoken⟩
        have hbound := munchLength_le (t := c :: a ++ x) (by simp)
        rw [List.length_append] at hbound
        refine List.ne_nil_of_length_pos ?_
        rw [List.length_take]
        omega
      · intro heq
        have hlen := congrArg List.length heq
        rw [length_take_munchLength hne, length_take_munchLength (by simp)] at hlen
        have hle := munchLength_le hne
        omega

/-- Stretches that meet keep their tokens, if none goes over the place where they meet. -/
theorem lexemes_append {a x : Text} (h : ¬ Crosses a x) : lexemes (a ++ x) = lexemes a ++ lexemes x :=
  (lexemes_append_or a x).resolve_right fun hcross => h hcross.1

/-- **Stretches that meet keep their tokens** if those of the first one come first. -/
theorem lexemes_append_of_prefix {a x : Text} {r s : List Text} (h : lexemes (a ++ x) ++ r = lexemes a ++ s) :
    lexemes (a ++ x) = lexemes a ++ lexemes x := by
  refine (lexemes_append_or a x).resolve_right ?_
  rintro ⟨-, front, u, v, back, back', hdiff, ha, hax⟩
  rw [ha, hax, List.append_assoc, List.append_assoc, List.append_cancel_left_eq, List.cons_append, List.cons_append] at h
  exact hdiff (List.cons.inj h).1.symm

/-! ## White space -/

/-- **White space parts tokens.** -/
theorem parting_lexemes : Parting lexemes where
  nil := lexemes_nil
  blank x c y hc := by
    rw [lexemes_append, lexemes_blank hc]
    rintro ⟨s, w, hs, hw, hsx, hwy, htoken⟩
    obtain ⟨d, w, rfl⟩ := List.exists_cons_of_ne_nil hw
    obtain rfl : d = c := (List.cons_prefix_cons.1 hwy).1
    have hnone := not_isBlank_of_isToken htoken d (by simp)
    rw [hc] at hnone
    cases hnone

/-- A token is made of characters of the code. -/
theorem mem_of_mem_lexemes {t p : Text} (h : p ∈ lexemes t) : p ≠ [] ∧ ∀ c ∈ p, c ∈ t := by
  fun_induction lexemes t with
  | case1 => cases h
  | case2 c t hc ih => exact ⟨(ih h).1, fun d hd => List.mem_cons_of_mem c ((ih h).2 d hd)⟩
  | case3 c t hc ih =>
    rcases List.mem_cons.1 h with rfl | h
    · refine ⟨?_, fun d hd => List.mem_of_mem_take hd⟩
      refine List.ne_nil_of_length_pos ?_
      rw [length_take_munchLength (by simp)]
      exact one_le_munchLength _
    · exact ⟨(ih h).1, fun d hd => List.mem_of_mem_drop ((ih h).2 d hd)⟩

end JavaMend.Java
