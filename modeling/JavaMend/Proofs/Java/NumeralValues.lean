import JavaMend.Proofs.Java.Namings

/-!
# `Proofs.Java.NumeralValues` — the values of the integers that are named

An argument is looked up by its value in decimal. In the program around it a numeral with a leading zero and further
digits is octal, or no numeral at all if one of these digits is `8` or `9`; so a constant keeps the value of the argument
it stands for just where the two readings agree.

## Contents
- **Readings.** `valueIn`, `numeralValue?`, `literalValue?`.
- **Agreement.** `basesAgree`; `valueIn_lt`, `literalValue?_eq_iff`.
- **Texts.** `KeepsValues`; `keepsValues_iff`, `not_keepsValues_octal`.
-/

namespace JavaMend.Java

open JavaMend Text

/-! ## Readings -/

/-- The value of digits in a base. -/
def valueIn (base : Nat) (t : Text) : Nat := t.foldl (fun n c => base * n + digitValue c) 0

/-- An octal digit. -/
def isOctalDigit (c : Char) : Bool := isAsciiDigit c && digitValue c < 8

/-- The value of a numeral in a program: octal if it has a leading zero and further digits, and else decimal. -/
def numeralValue? : Text → Option Nat
  | '0' :: d :: t => if (d :: t).all isOctalDigit then some (valueIn 8 (d :: t)) else none
  | t             => digitsValue? t

/-- The value of an integer literal in a program, with its sign if it has one. -/
def literalValue? : Text → Option Int
  | '-' :: t => (numeralValue? t).map fun n => -Int.ofNat n
  | '+' :: t => (numeralValue? t).map Int.ofNat
  | t        => (numeralValue? t).map Int.ofNat

/-- A literal without its sign. -/
def unsigned : Text → Text
  | '-' :: t => t
  | '+' :: t => t
  | t        => t

/-! ## Agreement -/

/-- A numeral means the same in decimal and in a program: it has no leading zero, or at most one octal digit follows
    its zeros. -/
def basesAgree (digits : Text) : Bool :=
  match digits with
  | '0' :: t =>
    match t.dropWhile (· == '0') with
    | []  => true
    | [d] => isOctalDigit d
    | _   => false
  | _ => true

theorem digitsValue?_eq_some {t : Text} {n : Nat} (h : digitsValue? t = some n) :
    (∀ c ∈ t, isAsciiDigit c = true) ∧ n = valueIn 10 t := by
  unfold digitsValue? at h
  split at h
  · cases h
  · rename_i hdigits
    simp only [Bool.or_eq_true, Bool.not_eq_true', not_or, Bool.not_eq_false] at hdigits
    exact ⟨List.all_eq_true.1 hdigits.2, (Option.some.inj h).symm⟩

/-- Leading zeros count for nothing. -/
theorem valueIn_dropWhile (base : Nat) (t : Text) : valueIn base (t.dropWhile (· == '0')) = valueIn base t := by
  induction t with
  | nil => rfl
  | cons c t ih =>
    by_cases hc : c = '0'
    · subst hc
      rw [List.dropWhile_cons_of_pos (by decide), ih, valueIn, valueIn, List.foldl_cons]
      rfl
    · rw [List.dropWhile_cons_of_neg (by simpa using hc)]

theorem foldl_octal_lt {m n : Nat} (h : m < n) (t : Text) :
    t.foldl (fun n c => 8 * n + digitValue c) m < t.foldl (fun n c => 10 * n + digitValue c) n := by
  induction t generalizing m n with
  | nil => exact h
  | cons c t ih => exact ih (m := 8 * m + digitValue c) (n := 10 * n + digitValue c) (by omega)

/-- **Two digits or more have the lesser value in octal.** -/
theorem valueIn_lt {d e : Char} {t : Text} (hd : 0 < digitValue d) : valueIn 8 (d :: e :: t) < valueIn 10 (d :: e :: t) :=
  foldl_octal_lt (m := 8 * (8 * 0 + digitValue d) + digitValue e) (n := 10 * (10 * 0 + digitValue d) + digitValue e)
    (by omega) t

theorem digitValue_pos {d : Char} (hd : isAsciiDigit d = true) (hne : d ≠ '0') : 0 < digitValue d := by
  simp only [isAsciiDigit, Bool.and_eq_true, decide_eq_true_eq] at hd
  have h0 : d.toNat ≠ 0x30 := fun h => hne (Char.ext (UInt32.toNat_inj.1 h))
  unfold digitValue
  omega

theorem all_dropWhile_zero {p : Char → Bool} (hp : p '0' = true) (t : Text) : (t.dropWhile (· == '0')).all p = t.all p := by
  induction t with
  | nil => rfl
  | cons c t ih =>
    by_cases hc : c = '0'
    · subst hc
      rw [List.dropWhile_cons_of_pos (by decide), ih, List.all_cons, hp, Bool.true_and]
    · rw [List.dropWhile_cons_of_neg (by simpa using hc)]

/-- The octal reading of digits gives their decimal value only if there is at most one behind the zeros. -/
theorem octal_eq_decimal_iff {t : Text} (hdigits : ∀ c ∈ t, isAsciiDigit c = true) :
    (t.all isOctalDigit = true ∧ valueIn 8 t = valueIn 10 t) ↔ basesAgree ('0' :: t) = true := by
  rw [← all_dropWhile_zero (p := isOctalDigit) (by decide), ← valueIn_dropWhile 8, ← valueIn_dropWhile 10, basesAgree]
  cases hrest : t.dropWhile (· == '0') with
  | nil => exact ⟨fun _ => rfl, fun _ => ⟨rfl, rfl⟩⟩
  | cons d rest =>
    have hd : isAsciiDigit d = true := hdigits d ((List.dropWhile_sublist _).subset (hrest ▸ List.mem_cons_self))
    have hne : d ≠ '0' := by simpa using not_of_dropWhile_cons hrest
    cases rest with
    | nil => simp [valueIn]
    | cons e rest =>
      have hlt := valueIn_lt (e := e) (t := rest) (digitValue_pos hd hne)
      simp only [Bool.false_eq_true, iff_false, not_and]
      exact fun _ heq => absurd heq (Nat.ne_of_lt hlt)

theorem numeralValue?_eq_iff {t : Text} {n : Nat} (h : digitsValue? t = some n) :
    numeralValue? t = some n ↔ basesAgree t = true := by
  obtain ⟨hdigits, rfl⟩ := digitsValue?_eq_some h
  unfold numeralValue?
  split
  · rename_i d t
    have hrest : ∀ c ∈ d :: t, isAsciiDigit c = true := fun c hc => hdigits c (List.mem_cons_of_mem _ hc)
    have hvalue : valueIn 10 ('0' :: d :: t) = valueIn 10 (d :: t) :=
      (valueIn_dropWhile 10 _).symm.trans (valueIn_dropWhile 10 _)
    rw [← octal_eq_decimal_iff hrest, hvalue]
    split
    · rename_i hall
      simp [hall]
    · rename_i hall
      simp [hall]
  · rename_i hnot
    simp only [h, true_iff]
    unfold basesAgree
    split
    · rename_i r
      cases r with
      | nil => rfl
      | cons d r => exact absurd rfl (hnot d r)
    · rfl

/-- **The two readings of a literal** agree just where those of its digits do. -/
theorem literalValue?_eq_iff {t : Text} {value : Int} (h : readInt? t = some value) :
    literalValue? t = some value ↔ basesAgree (unsigned t) = true := by
  have hread {digits : Text} {n : Nat} {p : Nat → Bool} {f : Nat → Int} (hf : Function.Injective f)
      (hn : (digitsValue? digits).filter p = some n) :
      (numeralValue? digits).map f = some (f n) ↔ basesAgree digits = true :=
    (Option.map_injective hf).eq_iff.trans (numeralValue?_eq_iff (Option.filter_eq_some_iff.1 hn).1)
  have hplus : Function.Injective Int.ofNat := fun _ _ => Int.ofNat.inj
  have hminus : Function.Injective fun n => -Int.ofNat n := fun _ _ h => Int.ofNat.inj (Int.neg_inj.1 h)
  unfold readInt? at h
  split at h
  · obtain ⟨_, hbind, rfl⟩ := Option.map_eq_some_iff.1 h
    obtain ⟨n, hn, hcast⟩ := Option.bind_eq_some_iff.1 hbind
    cases hcast
    exact hread hminus hn
  · obtain ⟨n, hn, rfl⟩ := Option.map_eq_some_iff.1 h
    exact hread hplus hn
  · rename_i r hnotMinus hnotPlus
    obtain ⟨n, hn, rfl⟩ := Option.map_eq_some_iff.1 h
    have hliteral : literalValue? t = (numeralValue? t).map Int.ofNat := by
      unfold literalValue?
      split
      · exact absurd rfl (hnotMinus _)
      · exact absurd rfl (hnotPlus _)
      · rfl
    have hunsigned : unsigned t = t := by
      unfold unsigned
      split
      · exact absurd rfl (hnotMinus _)
      · exact absurd rfl (hnotPlus _)
      · rfl
    rw [hliteral, hunsigned]
    exact hread hplus hn

/-! ## Texts -/

/-- Every argument that is replaced has in the program the value of the constant that takes its place. -/
def KeepsValues (value : Text → Int) (table : ConstantTable) (t : Text) : Prop :=
  ∀ literal n, .hit literal n ∈ textNamings table t → literalValue? literal = some (value n.constant.name)

/-- The value under which a constant is found is the one that the table lists for it. -/
theorem lookup_value {table : ConstantTable} {value : Text → Int}
    (htable : ∀ g ∈ table, ∀ pair ∈ g.values, value pair.2 = pair.1) {call : Text} {v : Int} {constant : Constant}
    (h : lookup table call v = some constant) : value constant.name = v := by
  have hmem := mem_of_agreed? h
  obtain ⟨g, hg, hconstant⟩ := List.mem_filterMap.1 hmem
  obtain ⟨pair, hpair, rfl⟩ := Option.map_eq_some_iff.1 hconstant
  have hlisted : pair.1 = v := by simpa using List.find?_some hpair
  rw [← hlisted]
  exact htable g (List.mem_of_mem_filter hg) pair (List.mem_of_find?_eq_some hpair)

/-- **A constant has the decimal value of the argument it stands for**, and so its value in the program exactly if the
    argument means the same in both. The pieces that say which arguments are replaced spell the text and give the
    result. -/
theorem keepsValues_iff {table : ConstantTable} {value : Text → Int}
    (htable : ∀ g ∈ table, ∀ pair ∈ g.values, value pair.2 = pair.1) (t : Text) :
    (textNamings table t).flatMap Piece.source = t
      ∧ nameConstants table t =
          (if (textNamings table t).flatMap writtenNaming = t then t
          else ((((textNamings table t).filterMap Piece.value?).flatMap fun n => n.constant.importing.toList).foldr
            insertText []).foldl ensureImport ((textNamings table t).flatMap writtenNaming))
      ∧ (∀ literal n, .hit literal n ∈ textNamings table t → readInt? literal = some (value n.constant.name))
      ∧ (KeepsValues value table t ↔
          ∀ literal n, .hit literal n ∈ textNamings table t → basesAgree (unsigned literal) = true) := by
  have hhits : ∀ literal n, .hit literal n ∈ textNamings table t → readInt? literal = some (value n.constant.name) := by
    intro literal n hhit
    obtain ⟨s, -, hs⟩ := List.mem_flatMap.1 hhit
    split at hs
    · obtain ⟨v, hread, hlookup⟩ := hit_namings hs
      rw [hread, lookup_value htable hlookup]
    · exact absurd hs hit_not_mem_plains
  refine ⟨source_textNamings table t, nameConstants_eq table t, hhits, ?_⟩
  exact forall₃_congr fun literal n hhit => literalValue?_eq_iff (hhits literal n hhit)

/-- A literal without a leading zero keeps its value. -/
theorem keepsValues_decimal :
    KeepsValues (fun _ => 330) [⟨[text "f"], none, [(330, text "A")]⟩] (text "f(+330);\n") := by
  have hpieces : textNamings [⟨[text "f"], none, [(330, text "A")]⟩] (text "f(+330);\n") =
      plains (text "f(") ++ .hit (text "+330") ⟨text "f", ⟨text "A", none⟩⟩ :: plains (text ");\n") := by decide +kernel
  refine (@keepsValues_iff [⟨[text "f"], none, [(330, text "A")]⟩] (fun _ => 330) ?_ _).2.2.2.2 ?_
  · decide
  · intro literal n hhit
    rw [hpieces] at hhit
    simp only [List.mem_append, List.mem_cons, hit_not_mem_plains, false_or, or_false, Piece.hit.injEq] at hhit
    rw [hhit.1]
    decide

/-- The constant for 512 takes the place of the octal literal `0512`, whose value is 330. -/
theorem not_keepsValues_octal :
    (∀ g ∈ ([⟨[text "f"], none, [(512, text "A")]⟩] : ConstantTable), ∀ pair ∈ g.values, (512 : Int) = pair.1)
      ∧ nameConstants [⟨[text "f"], none, [(512, text "A")]⟩] (text "f(0512);\n") = text "f(A);\n"
      ∧ literalValue? (text "0512") = some 330
      ∧ ¬ KeepsValues (fun _ => 512) [⟨[text "f"], none, [(512, text "A")]⟩] (text "f(0512);\n") := by
  have hhit : .hit (text "0512") ⟨text "f", ⟨text "A", none⟩⟩ ∈
      textNamings [⟨[text "f"], none, [(512, text "A")]⟩] (text "f(0512);\n") := by decide +kernel
  refine ⟨by decide, by decide +kernel, by decide, fun hkeeps => ?_⟩
  exact absurd (hkeeps _ _ hhit) (by decide)

end JavaMend.Java
