import JavaMend.Java.Fixup
import JavaMend.Proofs.Java.Runs

/-!
# `Proofs.Java.FixedLines` — what the first repairs do to a line

A fraction gives way to a shorter one, a dollar sign behind the name of the file's class to a dot, and a line of an
interface loses a word. How a line opens is seen by the last of these edits only, and is left alone by the others
(`opensAbstract_repairLine`).

## Contents
- **Cut texts.** `takeWhile_append_cons`, `dropWhile_append_cons`, `dropPrefix?_append_cons`; `exists_trimEnd`.
- **Fractions.** `trimFraction?_eq_some`, `trimFraction?_spec`; `faithful_findFraction`.
- **Inner classes.** `innerMark`, `qualifyInner_name`, `qualifyInner_induction`.
- **Members of interfaces.** `opensAbstract`, `dropAbstract_of_opens`, `dropAbstract_of_not_opens`.
- **Openings of lines.** `opening`; `opening_trimZeros`, `opening_qualifyInner`, `opensAbstract_opening`.
- **Files.** `mem_of_isEmptySuper`; `classNameOf`, `repairLine`, `fixLines`, `fixup_eq`; `opensAbstract_repairLine`.
-/

namespace JavaMend.Java

open JavaMend Text

/-! ## Cut texts -/

theorem takeWhile_append_cons {p : Char → Bool} {q : Char} (hq : p q = false) (t y : Text) :
    (t ++ q :: y).takeWhile p = t.takeWhile p := by
  induction t with
  | nil => simp [hq]
  | cons c t ih =>
    by_cases hc : p c = true
    · simp [hc, ih]
    · simp [hc]

theorem dropWhile_append_cons {p : Char → Bool} {q : Char} (hq : p q = false) (t y : Text) :
    (t ++ q :: y).dropWhile p = t.dropWhile p ++ q :: y := by
  induction t with
  | nil => simp [hq]
  | cons c t ih =>
    by_cases hc : p c = true
    · simp [hc, ih]
    · simp [hc]

/-- What begins with a text without `q` does so before the first `q`. -/
theorem dropPrefix?_append_cons {p : Text} {q : Char} (hq : q ∉ p) (t y : Text) :
    dropPrefix? p (t ++ q :: y) = (dropPrefix? p t).map (· ++ q :: y) := by
  induction p generalizing t with
  | nil => rfl
  | cons a p ih =>
    obtain ⟨ha, hp⟩ := not_or.1 (mt List.mem_cons.2 hq)
    cases t with
    | nil => simp [dropPrefix?, Ne.symm ha]
    | cons b t =>
      by_cases hab : a = b
      · simp [dropPrefix?, hab, ih hp]
      · simp [dropPrefix?, hab]

theorem exists_trimEnd (t : Text) : ∃ b, t = trimEnd t ++ b ∧ ∀ c ∈ b, isBlank c = true := by
  refine ⟨(t.reverse.takeWhile isBlank).reverse, ?_, fun c hc => ?_⟩
  · rw [trimEnd, ← List.reverse_append, List.takeWhile_append_dropWhile, List.reverse_reverse]
  · exact List.all_eq_true.1 List.all_takeWhile c (List.mem_reverse.1 hc)

/-! ## Fractions -/

theorem fractionEnd?_spec {t suffix : Text} (h : fractionEnd? t = some suffix) :
    suffix <+: t ∧ ∀ c ∈ suffix, isSuffix c = true := by
  unfold fractionEnd? at h
  split at h
  · cases h
    simp
  · split at h
    · split at h
      · cases h
        simpa using ‹isSuffix _ = true›
      · cases h
    · split at h
      · cases h
      · cases h
        simp

/-- **A fraction at the start of the text, part by part**: its digits, of which the last ones are zeros, and its suffix. -/
theorem trimFraction?_eq_some {t m short : Text} (h : trimFraction? t = some (m, short)) :
    ∃ w p z suffix rest, w ≠ [] ∧ (∀ c ∈ w, isAsciiDigit c = true) ∧ p ≠ [] ∧ (∀ c ∈ p, isAsciiDigit c = true) ∧
      (∀ c ∈ z, c = '0') ∧ (∀ c ∈ suffix, isSuffix c = true) ∧ fractionEnd? (suffix ++ rest) = some suffix ∧
      t = m ++ rest ∧ m = w ++ '.' :: (p ++ z ++ suffix) ∧ short = w ++ '.' :: (p ++ suffix) := by
  simp only [trimFraction?, Option.bind_eq_bind, Option.bind_eq_some_iff] at h
  obtain ⟨rest, hrest, suffix, hsuffix, h⟩ := h
  split at h
  · cases h
  · rename_i hsome
    simp only [Option.pure_def, Option.some.injEq, Prod.mk.injEq] at h
    obtain ⟨rfl, rfl⟩ := h
    simp only [Bool.or_eq_true, List.isEmpty_iff, not_or] at hsome
    obtain ⟨⟨hwhole, hkept⟩, -⟩ := hsome
    obtain ⟨⟨tail, htail⟩, hchars⟩ := fractionEnd?_spec hsuffix
    have hdigits (s : Text) : ∀ c ∈ s.takeWhile isAsciiDigit, isAsciiDigit c = true :=
      List.all_eq_true.1 List.all_takeWhile
    -- The zeros are what is dropped at the end.
    obtain ⟨z, hz, hzeros⟩ : ∃ z, rest.takeWhile isAsciiDigit =
        ((rest.takeWhile isAsciiDigit).reverse.dropWhile (· == '0')).reverse ++ z ∧ ∀ c ∈ z, c = '0' := by
      refine ⟨((rest.takeWhile isAsciiDigit).reverse.takeWhile (· == '0')).reverse, ?_, fun c hc => ?_⟩
      · rw [← List.reverse_append, List.takeWhile_append_dropWhile, List.reverse_reverse]
      · exact eq_of_beq (List.all_eq_true.1 List.all_takeWhile c (List.mem_reverse.1 hc))
    refine ⟨t.takeWhile isAsciiDigit, _, z, suffix, tail, hwhole, hdigits t, hkept, fun c hc => ?_, hzeros, hchars,
      ?_, ?_, ?_, ?_⟩
    · refine hdigits rest c ?_
      rw [hz]
      exact List.mem_append_left z hc
    · rw [htail, hsuffix]
    · calc t = t.takeWhile isAsciiDigit ++ t.dropWhile isAsciiDigit := List.takeWhile_append_dropWhile.symm
        _ = t.takeWhile isAsciiDigit ++ '.' :: (rest.takeWhile isAsciiDigit ++ rest.dropWhile isAsciiDigit) := by
            rw [dropPrefix?_eq_some.1 hrest, List.takeWhile_append_dropWhile]
            rfl
        _ = t.takeWhile isAsciiDigit ++ '.' :: rest.takeWhile isAsciiDigit ++ suffix ++ tail := by
            rw [← htail]
            simp
    · rw [← hz]
      simp
    · simp

/-- **A fraction stands at the start of the text**, opens with a digit as its trimmed form does, and both are made of digits,
    a point and a suffix. -/
theorem trimFraction?_spec {t m short : Text} (h : trimFraction? t = some (m, short)) :
    m <+: t ∧ (∃ d, isAsciiDigit d = true ∧ m.head? = some d ∧ short.head? = some d)
      ∧ ∀ c ∈ m ++ short, isAsciiDigit c = true ∨ c = '.' ∨ isSuffix c = true := by
  obtain ⟨w, p, z, suffix, rest, hne, hw, -, hp, hz, hsuffix, -, rfl, rfl, rfl⟩ := trimFraction?_eq_some h
  refine ⟨List.prefix_append _ _, ?_, ?_⟩
  · obtain ⟨d, w, rfl⟩ := List.exists_cons_of_ne_nil hne
    exact ⟨d, hw d List.mem_cons_self, rfl, rfl⟩
  · have hzero {c : Char} (hc : c ∈ z) : isAsciiDigit c = true := by
      rw [hz c hc]
      decide
    intro c hc
    simp only [List.append_assoc, List.cons_append, List.mem_append, List.mem_cons] at hc
    rcases hc with hc | rfl | hc | hc | hc | hc | rfl | hc | hc
    · exact .inl (hw c hc)
    · exact .inr (.inl rfl)
    · exact .inl (hp c hc)
    · exact .inl (hzero hc)
    · exact .inr (.inr (hsuffix c hc))
    · exact .inl (hw c hc)
    · exact .inr (.inl rfl)
    · exact .inl (hp c hc)
    · exact .inr (.inr (hsuffix c hc))

theorem findFraction_eq_some {before : Option Char} {t : Text} {found : Text × Text}
    (h : findFraction before t = some found) : trimFraction? t = some found := by
  unfold findFraction at h
  split at h
  · cases h
  · exact h

theorem faithful_findFraction : findFraction.Faithful := by
  intro before t m short h
  obtain ⟨hpre, ⟨d, -, hm, -⟩, -⟩ := trimFraction?_spec (findFraction_eq_some h)
  refine ⟨?_, hpre⟩
  rintro rfl
  cases hm

/-! ## Inner classes -/

section
variable {className : Text}

theorem qualifyInner_nil (before : Option Char) : qualifyInner className before [] = [] := by
  rw [qualifyInner]

/-- What comes before a text counts only as far as a name can go on from it. -/
theorem qualifyInner_congr {before before' : Option Char} (h : before.any isIdentChar = before'.any isIdentChar)
    (t : Text) : qualifyInner className before t = qualifyInner className before' t := by
  cases t with
  | nil => rw [qualifyInner_nil, qualifyInner_nil]
  | cons c t => rw [qualifyInner, qualifyInner, h]

theorem qualifyInner_of_none {before : Option Char} {c : Char} {t : Text}
    (h : dropPrefix? (className ++ ['$']) (c :: t) = none) :
    qualifyInner className before (c :: t) = c :: qualifyInner className (some c) t := by
  rw [qualifyInner]
  split
  · rename_i rest hrest
    rw [h] at hrest
    cases hrest
  · rfl

/-- What stands for the dollar sign behind the class name. -/
def innerMark (before : Option Char) (rest : Text) : Char := if !before.any isIdentChar && opensInner rest then '.' else '$'

theorem qualifyInner_name (before : Option Char) (rest : Text) :
    qualifyInner className before (className ++ '$' :: rest) =
      className ++ innerMark before rest :: qualifyInner className none rest := by
  have hname : dropPrefix? (className ++ ['$']) (className ++ '$' :: rest) = some rest := by
    rw [dropPrefix?_eq_some]
    simp
  obtain ⟨c, t, hct⟩ := List.exists_cons_of_ne_nil (l := className ++ '$' :: rest) (by simp)
  have hdrop : t.drop className.length = rest := by
    have htail : t = (className ++ '$' :: rest).tail := by rw [hct]; rfl
    rw [htail]
    simp
  rw [hct, qualifyInner]
  split
  · rename_i rest' hrest'
    rw [← hct, hname] at hrest'
    cases hrest'
    rw [hdrop]
    rfl
  · rename_i hnone
    rw [← hct, hname] at hnone
    cases hnone

/-- Induction along the occurrences of the class name with a dollar sign. -/
theorem qualifyInner_induction (className : Text) {motive : Option Char → Text → Prop} (nil : ∀ before, motive before [])
    (plain : ∀ before c t, dropPrefix? (className ++ ['$']) (c :: t) = none → motive (some c) t →
      motive before (c :: t))
    (name : ∀ before rest, motive none rest → motive before (className ++ '$' :: rest)) (before : Option Char)
    (t : Text) : motive before t := by
  fun_induction qualifyInner className before t with
  | case1 before => exact nil before
  | case2 before c t rest hrest named ih =>
    have hct := dropPrefix?_eq_some.1 hrest
    have hdrop : t.drop className.length = rest := by
      have htail : t = (className ++ ['$'] ++ rest).tail := by rw [← hct]; rfl
      rw [htail]
      simp
    rw [hdrop] at ih
    rw [hct, List.append_assoc]
    exact name before rest ih
  | case3 before c t hnone ih => exact plain before c t hnone ih

end

/-! ## Members of interfaces -/

theorem afterWord?_eq_some {word t r : Text} (h : afterWord? word t = some r) :
    ∃ gap, t = word ++ (gap ++ r) ∧ ∀ c ∈ gap, isBlank c = true := by
  simp only [afterWord?, Option.bind_eq_bind, Option.bind_eq_some_iff] at h
  obtain ⟨rest, hrest, h⟩ := h
  split at h
  · cases h
    refine ⟨rest.takeWhile isBlank, ?_, fun c hc => List.all_eq_true.1 List.all_takeWhile c hc⟩
    rw [trimStart, List.takeWhile_append_dropWhile, dropPrefix?_eq_some.1 hrest]
  · cases h

theorem skipWord_spec (word t : Text) :
    ∃ u, t = u ++ skipWord word t ∧ ∀ c ∈ u, isBlank c = true ∨ c ∈ word := by
  unfold skipWord
  cases h : afterWord? word t with
  | none => exact ⟨[], rfl, nofun⟩
  | some r =>
    obtain ⟨gap, rfl, hgap⟩ := afterWord?_eq_some h
    refine ⟨word ++ gap, by simp, fun c hc => ?_⟩
    exact (List.mem_append.1 hc).symm.imp_left (hgap c)

/-- The line is indented and opens with `abstract`, where only `public` may precede it. -/
def opensAbstract (line : Text) : Bool :=
  line.head?.any isBlank && (afterWord? (text "abstract") (skipWord (text "public") (trimStart line))).isSome

theorem dropAbstract_of_not_opens {line : Text} (h : opensAbstract line = false) : dropAbstract line = line := by
  simp only [dropAbstract]
  split
  · rename_i member hmember
    split
    · rename_i hindented
      simp [opensAbstract, hindented, hmember] at h
    · rfl
  · rfl

/-- **A line that opens with `abstract` loses it**, and the white space behind it. -/
theorem dropAbstract_of_opens {line : Text} (h : opensAbstract line = true) :
    ∃ pre gap member, line = pre ++ (text "abstract" ++ (gap ++ member)) ∧ dropAbstract line = pre ++ member
      ∧ (∀ c ∈ pre, isBlank c = true ∨ c ∈ text "public") ∧ ∀ c ∈ gap, isBlank c = true := by
  rw [opensAbstract, Bool.and_eq_true] at h
  obtain ⟨hindented, habstract⟩ := h
  obtain ⟨member, hmember⟩ := Option.isSome_iff_exists.1 habstract
  obtain ⟨u, hu, hpublic⟩ := skipWord_spec (text "public") (trimStart line)
  obtain ⟨gap, hrest, hgap⟩ := afterWord?_eq_some hmember
  have hline : line = (line.takeWhile isBlank ++ u) ++ skipWord (text "public") (trimStart line) := by
    rw [List.append_assoc, ← hu, trimStart, List.takeWhile_append_dropWhile]
  -- What is kept in front of `abstract` is what comes before the text that begins with it.
  have htake : line.take (line.length - (skipWord (text "public") (trimStart line)).length) =
      line.takeWhile isBlank ++ u := by
    generalize skipWord (text "public") (trimStart line) = rest at hline
    generalize line.takeWhile isBlank ++ u = pre at hline
    subst hline
    simp
  refine ⟨line.takeWhile isBlank ++ u, gap, member, ?_, ?_, ?_, hgap⟩
  · rw [← hrest]
    exact hline
  · simp only [dropAbstract, hmember, hindented, if_true, htake]
  · intro c hc
    rcases List.mem_append.1 hc with hc | hc
    · exact .inl (List.all_eq_true.1 List.all_takeWhile c hc)
    · exact hpublic c hc

/-! ## Openings of lines -/

/-- White space, or a letter of the words that are looked for at the start of a line. -/
def inOpening (c : Char) : Bool := isBlank c || isAsciiLower c

/-- The white space and the words at the start of a line. -/
def opening (line : Text) : Text := line.takeWhile inOpening

theorem opening_append_cons (x y : Text) {q : Char} (hq : inOpening q = false) : opening (x ++ q :: y) = opening x :=
  takeWhile_append_cons hq x y

theorem opening_cons_congr (c : Char) {t t' : Text} (h : opening t = opening t') : opening (c :: t) = opening (c :: t') := by
  unfold opening at h ⊢
  rw [List.takeWhile_cons, List.takeWhile_cons, h]

theorem not_inOpening_of_isAsciiDigit {c : Char} (h : isAsciiDigit c = true) : inOpening c = false := by
  simp only [isAsciiDigit, Bool.and_eq_true, decide_eq_true_eq] at h
  simp [inOpening, isBlank, isAsciiLower]
  omega

theorem opening_trimZeros (line : Text) : opening (trimZeros line) = opening line := by
  unfold trimZeros
  rw [substitute_eq_edited]
  generalize (none : Option Char) = before
  induction before, line using pieces_induction faithful_findFraction with
  | nil before => simp [edited, pieces]
  | plain before c t hnone ih =>
    rw [edited_cons_none hnone]
    exact opening_cons_congr c ih
  | hit before m short rest hhit ih =>
    obtain ⟨-, ⟨d, hd, hm, hshort⟩, -⟩ := trimFraction?_spec (findFraction_eq_some hhit)
    obtain ⟨m', rfl⟩ := List.head?_eq_some_iff.1 hm
    obtain ⟨short', rfl⟩ := List.head?_eq_some_iff.1 hshort
    rw [edited_hit faithful_findFraction hhit]
    simp [opening, not_inOpening_of_isAsciiDigit hd]

theorem opening_qualifyInner (className : Text) (before : Option Char) (line : Text) :
    opening (qualifyInner className before line) = opening line := by
  induction before, line using qualifyInner_induction className with
  | nil before => rw [qualifyInner_nil]
  | plain before c t hnone ih =>
    rw [qualifyInner_of_none hnone]
    exact opening_cons_congr c ih
  | name before rest ih =>
    have hmark : inOpening (innerMark before rest) = false := by
      unfold innerMark
      split <;> decide
    rw [qualifyInner_name, opening_append_cons _ _ hmark, opening_append_cons _ _ (by decide)]

theorem afterWord?_append_cons {word : Text} {q : Char} (hword : q ∉ word) (hq : isBlank q = false) (t y : Text) :
    afterWord? word (t ++ q :: y) = (afterWord? word t).map (· ++ q :: y) := by
  unfold afterWord?
  rw [dropPrefix?_append_cons hword]
  cases dropPrefix? word t with
  | none => rfl
  | some rest =>
    have hhead : (rest ++ q :: y).head?.any isBlank = rest.head?.any isBlank := by
      cases rest with
      | nil => simpa using hq
      | cons c rest => rfl
    simp only [Option.map_some, Option.bind_eq_bind, Option.bind_some, hhead, trimStart, dropWhile_append_cons hq]
    split <;> rfl

theorem skipWord_append_cons {word : Text} {q : Char} (hword : q ∉ word) (hq : isBlank q = false) (t y : Text) :
    skipWord word (t ++ q :: y) = skipWord word t ++ q :: y := by
  unfold skipWord
  rw [afterWord?_append_cons hword hq]
  cases afterWord? word t <;> rfl

theorem opensAbstract_append_cons {q : Char} (hq : inOpening q = false) (x y : Text) :
    opensAbstract (x ++ q :: y) = opensAbstract x := by
  rw [inOpening, Bool.or_eq_false_iff] at hq
  obtain ⟨hblank, hlower⟩ := hq
  have hword : ∀ word ∈ [text "public", text "abstract"], q ∉ word := by
    intro word hmem hq
    have hletters : ([text "public", text "abstract"].all fun word => word.all isAsciiLower) = true := by decide
    rw [List.all_eq_true.1 (List.all_eq_true.1 hletters word hmem) q hq] at hlower
    cases hlower
  have hhead : (x ++ q :: y).head?.any isBlank = x.head?.any isBlank := by
    cases x with
    | nil => simpa using hblank
    | cons c x => rfl
  unfold opensAbstract
  rw [hhead, trimStart, dropWhile_append_cons hblank, skipWord_append_cons (hword _ (by simp)) hblank,
    afterWord?_append_cons (hword _ (by simp)) hblank, Option.isSome_map, trimStart]

/-- **Whether a line opens with `abstract`** shows in its opening. -/
theorem opensAbstract_opening (line : Text) : opensAbstract (opening line) = opensAbstract line := by
  have hline : opening line ++ line.dropWhile inOpening = line := List.takeWhile_append_dropWhile
  cases hrest : line.dropWhile inOpening with
  | nil =>
    rw [hrest, List.append_nil] at hline
    rw [hline]
  | cons q y =>
    -- The character behind the opening stands in none of the words, so they end before it.
    have hq : inOpening q = false := by
      have hhead := List.head?_dropWhile_not inOpening line
      simpa [hrest] using hhead
    rw [hrest] at hline
    conv => rhs; rw [← hline]
    exact (opensAbstract_append_cons hq _ y).symm

/-! ## Files -/

theorem mem_of_isEmptySuper {line : Text} (h : isEmptySuper line = true) :
    ∀ c ∈ line, isBlank c = true ∨ c ∈ text "super();" := by
  rw [isEmptySuper, beq_iff_eq, trim] at h
  intro c hc
  rw [← List.takeWhile_append_dropWhile (p := isBlank) (l := line)] at hc
  rcases List.mem_append.1 hc with hc | hc
  · exact .inl (List.all_eq_true.1 List.all_takeWhile c hc)
  · obtain ⟨b, hb, hblank⟩ := exists_trimEnd (trimStart line)
    rw [show line.dropWhile isBlank = trimStart line from rfl, hb, h] at hc
    exact (List.mem_append.1 hc).symm.imp_left (hblank c)

/-- The class that a file of the given name holds. -/
def classNameOf (fileName : Text) : Text := (dropSuffix? (text ".java") fileName).getD fileName

/-- A repaired line, `abstract` left aside. -/
def repairLine (className line : Text) : Text := qualifyInner className none (trimZeros (trimEnd line))

/-- The lines of a fixed text. -/
def fixLines (className : Text) (isInterface : Bool) (ls : List Text) : List Text :=
  (ls.filter fun l => !isEmptySuper l).map (fixLine className isInterface)

theorem fixup_eq (o : FixupOptions) (fileName t : Text) : fixup o fileName t =
    unlines (fixLines (classNameOf fileName) (o.fixInterfaces && (lines t).any isInterfaceLine) (lines t))
      (endsWithNewline t) := rfl

theorem opensAbstract_repairLine (className line : Text) :
    opensAbstract (repairLine className line) = opensAbstract (trimEnd line) := by
  rw [← opensAbstract_opening, repairLine, opening_qualifyInner, opening_trimZeros, opensAbstract_opening]

end JavaMend.Java
