import JavaMend.Proofs.Java.FixedLines

/-!
# `Proofs.Java.InnerClasses` — which inner classes are written with a dot

The class name with a dollar sign denotes an inner class of the file's own class if it stands at a boundary, that is, not
at the end of a longer name. The edit reads a line from the left, occurrence by occurrence (`Reads`), and keeps nothing of
what stands before the end of an occurrence. So it takes one directly behind another one for one at a boundary
(`dotsAt_qualifyInner`), and does not read one that overlaps the one before. It qualifies exactly the inner classes at
boundaries if and only if neither happens (`qualifiesExactly_iff`); for a name without dollar sign that means that no inner
class stands directly behind the name with a dollar sign.

## Contents
- **Places in lines.** `NamedAt`, `AtBoundary`; `DotsAt`, `QualifiesExactly`; `DotsAt.iff`, `DotsAt.append`.
- **Reading from the left.** `Reads`; `Reads.next`, `reads_of_stands`.
- **What is edited.** `Dotted`, `dotted_cons_iff`, `dotted_name_iff`; `dotsAt_qualifyInner`.
- **Boundaries.** `qualifiesExactly_iff`, `not_qualifiesExactly_foreign`.
-/

namespace JavaMend.Java

open JavaMend Text

variable {className : Text}

/-! ## Places in lines -/

/-- **A named inner class after `pos` characters**: there stands the class name with a dollar sign, and a letter or an
    underscore follows. -/
structure NamedAt (className l : Text) (pos : Nat) : Prop where
  stands : className ++ ['$'] <+: l.drop pos
  opens : opensInner (l.drop (pos + className.length + 1)) = true

/-- After `pos` characters no name goes on from the ones before. -/
def AtBoundary (l : Text) (pos : Nat) : Prop := (l.take pos).getLast?.any isIdentChar = false

instance (l : Text) (pos : Nat) : Decidable (AtBoundary l pos) :=
  inferInstanceAs (Decidable ((l.take pos).getLast?.any isIdentChar = false))

/-- **The dollar signs at some places become dots**, behind a class name each, and every other character is as before. -/
structure DotsAt (className : Text) (places : Nat → Prop) (l result : Text) : Prop where
  length : result.length = l.length
  dots : ∀ pos, places pos → result[pos + className.length]? = some '.'
  others : ∀ i, (∀ pos, places pos → i ≠ pos + className.length) → result[i]? = l[i]?

/-- **Exactly the inner classes at boundaries are written with a dot.** -/
def QualifiesExactly (className l result : Text) : Prop :=
  DotsAt className (fun pos => NamedAt className l pos ∧ AtBoundary l pos) l result

theorem getElem?_of_stands {l : Text} {pos : Nat} (h : className ++ ['$'] <+: l.drop pos) :
    l[pos + className.length]? = some '$' := by
  obtain ⟨rest, hrest⟩ := h
  rw [← List.getElem?_drop, ← hrest]
  simp

/-- A place behind the name is not at a boundary: the dollar sign stands before it. -/
theorem not_atBoundary_behind {l : Text} {pos : Nat} (h : className ++ ['$'] <+: l.drop pos) :
    ¬ AtBoundary l (pos + className.length + 1) := by
  have hdollar := getElem?_of_stands h
  simp [AtBoundary, List.take_add_one, hdollar, isIdentChar_dollar]

/-- Where a class name with a dollar sign stands, the result tells whether a dot takes its place. -/
theorem DotsAt.iff_dot {places : Nat → Prop} {l result : Text} {pos : Nat} (h : DotsAt className places l result)
    (hpos : className ++ ['$'] <+: l.drop pos) : places pos ↔ result[pos + className.length]? = some '.' := by
  refine ⟨h.dots pos, fun hresult => Classical.byContradiction fun hnot => ?_⟩
  have hline := h.others (pos + className.length) fun q hq heq => hnot (Nat.add_right_cancel heq ▸ hq)
  rw [hresult, getElem?_of_stands hpos] at hline
  exact absurd hline (by decide)

/-- A line has the same result with dots at other places only if these are the same. -/
theorem DotsAt.iff {places places' : Nat → Prop} {l result : Text} (h : DotsAt className places l result)
    (hstands : ∀ pos, places pos → className ++ ['$'] <+: l.drop pos)
    (hstands' : ∀ pos, places' pos → className ++ ['$'] <+: l.drop pos) :
    DotsAt className places' l result ↔ ∀ pos, places pos ↔ places' pos := by
  constructor
  · intro h' pos
    constructor
    · intro hp
      exact (h'.iff_dot (hstands pos hp)).2 (h.dots pos hp)
    · intro hp
      exact (h.iff_dot (hstands' pos hp)).2 (h'.dots pos hp)
  · intro hiff
    have hplaces : places = places' := funext fun pos => propext (hiff pos)
    exact hplaces ▸ h

theorem dotsAt_self (t : Text) : DotsAt className (fun _ => False) t t where
  length := rfl
  dots _ h := h.elim
  others _ _ := rfl

/-- Dots in two parts of a line. -/
theorem DotsAt.append {here there places : Nat → Prop} {p p' t r : Text} (hp : DotsAt className here p p')
    (ht : DotsAt className there t r) (h : ∀ pos, places pos ↔ here pos ∨ ∃ q, pos = p.length + q ∧ there q) :
    DotsAt className places (p ++ t) (p' ++ r) where
  length := by simp [hp.length, ht.length]
  dots pos hpos := by
    rcases (h pos).1 hpos with hhere | ⟨q, rfl, hthere⟩
    · have hdot := hp.dots pos hhere
      rw [List.getElem?_append_left (List.getElem?_eq_some_iff.1 hdot).1, hdot]
    · rw [List.getElem?_append_right (by rw [hp.length]; omega), hp.length, Nat.add_assoc, Nat.add_sub_cancel_left,
        ht.dots q hthere]
  others i hi := by
    rcases Nat.lt_or_ge i p.length with hlt | hge
    · rw [List.getElem?_append_left hlt, List.getElem?_append_left (hp.length ▸ hlt)]
      exact hp.others i fun pos hpos => hi pos ((h pos).2 (.inl hpos))
    · obtain ⟨j, rfl⟩ := Nat.exists_eq_add_of_le hge
      rw [List.getElem?_append_right hge, List.getElem?_append_right (hp.length ▸ hge), hp.length, Nat.add_sub_cancel_left]
      refine ht.others j fun q hq hj => hi (p.length + q) ((h _).2 (.inr ⟨q, rfl, hq⟩)) ?_
      omega

/-! ## Reading from the left -/

/-- **The occurrence after `pos` characters is read** when a line is read from the left, each occurrence of the class name
    with a dollar sign behind the end of the one before. -/
inductive Reads (className : Text) : Text → Nat → Prop where
  | here {l rest : Text} (h : l = className ++ '$' :: rest) : Reads className l 0
  | behind {l rest : Text} {pos : Nat} (h : l = className ++ '$' :: rest) (hrest : Reads className rest pos) :
    Reads className l (className.length + 1 + pos)
  | later {l t : Text} {c : Char} {pos : Nat} (h : l = c :: t) (hnone : dropPrefix? (className ++ ['$']) l = none)
    (ht : Reads className t pos) : Reads className l (pos + 1)

theorem drop_name (rest : Text) (pos : Nat) :
    (className ++ '$' :: rest).drop (className.length + 1 + pos) = rest.drop pos := by
  rw [← List.drop_drop, List.append_cons, List.drop_left' (by simp)]

theorem dropPrefix?_name (rest : Text) : dropPrefix? (className ++ ['$']) (className ++ '$' :: rest) = some rest :=
  dropPrefix?_eq_some.2 (List.append_cons _ _ _)

theorem Reads.stands {l : Text} {pos : Nat} (h : Reads className l pos) : className ++ ['$'] <+: l.drop pos := by
  induction h with
  | here h => exact ⟨_, h ▸ (List.append_cons _ _ _).symm⟩
  | behind h hrest ih => rwa [h, drop_name]
  | later h hnone ht ih => rwa [h, List.drop_succ_cons]

theorem not_reads_nil {pos : Nat} : ¬ Reads className [] pos :=
  fun h => by simpa using h.stands

theorem reads_cons_iff {c : Char} {t : Text} {pos : Nat} (hnone : dropPrefix? (className ++ ['$']) (c :: t) = none) :
    Reads className (c :: t) pos ↔ ∃ p, pos = p + 1 ∧ Reads className t p := by
  constructor
  · intro h
    cases h with
    | here h => rw [h, dropPrefix?_name] at hnone; cases hnone
    | behind h hrest => rw [h, dropPrefix?_name] at hnone; cases hnone
    | later h _ ht => cases h; exact ⟨_, rfl, ht⟩
  · rintro ⟨p, rfl, ht⟩
    exact .later rfl hnone ht

theorem reads_name_iff {rest : Text} {pos : Nat} :
    Reads className (className ++ '$' :: rest) pos ↔
      pos = 0 ∨ ∃ p, pos = className.length + 1 + p ∧ Reads className rest p := by
  constructor
  · intro h
    cases h with
    | here => exact .inl rfl
    | behind h hrest => simp only [List.append_cancel_left_eq, List.cons.injEq, true_and] at h; exact .inr ⟨_, rfl, h ▸ hrest⟩
    | later h hnone => rw [dropPrefix?_name] at hnone; cases hnone
  · rintro (rfl | ⟨p, rfl, hrest⟩)
    · exact .here rfl
    · exact .behind rfl hrest

/-- What stands directly behind an occurrence that is read is read, too. -/
theorem Reads.next {l : Text} {pos : Nat} (h : Reads className l pos)
    (hnext : className ++ ['$'] <+: l.drop (pos + className.length + 1)) :
    Reads className l (pos + className.length + 1) := by
  induction h with
  | @here l rest h =>
    have hrest : className ++ ['$'] <+: rest := by
      rwa [h, Nat.zero_add, ← Nat.add_zero (className.length + 1), drop_name] at hnext
    obtain ⟨rest', rfl⟩ := hrest
    have hfirst : Reads className (className ++ ['$'] ++ rest') 0 := .here (List.append_cons _ _ _).symm
    simpa only [Nat.zero_add, Nat.add_zero] using Reads.behind h hfirst
  | @behind l rest pos h hrest ih =>
    rw [Nat.add_assoc, Nat.add_assoc (className.length + 1), ← Nat.add_assoc pos] at hnext ⊢
    rw [h, drop_name] at hnext
    exact .behind h (ih hnext)
  | @later l t c pos h hnone ht ih =>
    have hshift : pos + 1 + className.length + 1 = pos + className.length + 1 + 1 := by omega
    rw [hshift] at hnext ⊢
    exact .later h hnone (ih (by rwa [h] at hnext))

/-- Where the name has no dollar sign, all its occurrences are read: none overlaps another one. -/
theorem reads_of_stands (hname : '$' ∉ className) {l : Text} {pos : Nat} (h : className ++ ['$'] <+: l.drop pos) :
    Reads className l pos := by
  -- The induction follows the edit; the character before the text does not matter.
  induction none, l using qualifyInner_induction className generalizing pos with
  | nil before => simp at h
  | plain before c t hnone ih =>
    cases pos with
    | zero =>
      obtain ⟨rest, hrest⟩ := h
      rw [dropPrefix?_eq_some.2 (by simpa using hrest.symm)] at hnone
      cases hnone
    | succ pos => exact .later rfl hnone (ih h)
  | name before rest ih =>
    rcases Nat.lt_or_ge className.length pos with hlt | hle
    · obtain ⟨p, rfl⟩ := Nat.exists_eq_add_of_le (Nat.succ_le_of_lt hlt)
      exact .behind rfl (ih (by rwa [Nat.succ_eq_add_one, drop_name] at h))
    · cases pos with
      | zero => exact .here rfl
      | succ pos =>
        -- The dollar sign behind the first name would be a character of the second one.
        obtain ⟨rest', hrest'⟩ := h
        have hchar := congrArg (·[className.length - (pos + 1)]?) hrest'
        simp only [List.append_assoc, List.getElem?_drop, Nat.add_sub_cancel' hle] at hchar
        rw [List.getElem?_append_left (by omega), List.getElem?_append_right (Nat.le_refl _)] at hchar
        exact absurd (List.mem_of_getElem? (hchar.trans (by simp))) hname

/-! ## What is edited -/

/-- The character before the place after `pos` characters, where `before` is the one before the line. -/
def lastBefore (before : Option Char) (l : Text) (pos : Nat) : Option Char := (l.take pos).getLast?.or before

/-- **The named inner classes that the edit writes with a dot**: it reads the occurrence, and either no name goes on into it
    or it is directly behind another one. -/
structure Dotted (className : Text) (before : Option Char) (l : Text) (pos : Nat) : Prop where
  reads : Reads className l pos
  named : NamedAt className l pos
  free : (lastBefore before l pos).any isIdentChar = false ∨
    ∃ q, Reads className l q ∧ pos = q + className.length + 1

theorem lastBefore_none (l : Text) (pos : Nat) : lastBefore none l pos = (l.take pos).getLast? := Option.or_none

theorem namedAt_cons_succ {c : Char} {t : Text} {pos : Nat} :
    NamedAt className (c :: t) (pos + 1) ↔ NamedAt className t pos := by
  have hopens : pos + 1 + className.length + 1 = pos + className.length + 1 + 1 := by omega
  constructor
  · rintro ⟨hstands, hopen⟩
    exact ⟨hstands, by rwa [hopens] at hopen⟩
  · rintro ⟨hstands, hopen⟩
    exact ⟨hstands, by rwa [hopens]⟩

theorem namedAt_name_zero {rest : Text} : NamedAt className (className ++ '$' :: rest) 0 ↔ opensInner rest = true := by
  have hdrop : (className ++ '$' :: rest).drop (0 + className.length + 1) = rest := by
    rw [Nat.zero_add]
    exact drop_name rest 0
  constructor
  · intro h
    rw [← hdrop]
    exact h.opens
  · intro h
    exact ⟨⟨rest, (List.append_cons _ _ _).symm⟩, by rwa [hdrop]⟩

theorem namedAt_name_add {rest : Text} {pos : Nat} :
    NamedAt className (className ++ '$' :: rest) (className.length + 1 + pos) ↔ NamedAt className rest pos := by
  have hassoc : className.length + 1 + pos + className.length + 1 = className.length + 1 + (pos + className.length + 1) := by
    omega
  constructor
  · rintro ⟨hstands, hopen⟩
    exact ⟨by rwa [drop_name] at hstands, by rwa [hassoc, drop_name] at hopen⟩
  · rintro ⟨hstands, hopen⟩
    exact ⟨by rwa [drop_name], by rwa [hassoc, drop_name]⟩

theorem lastBefore_cons_succ (before : Option Char) (c : Char) (t : Text) (pos : Nat) :
    lastBefore before (c :: t) (pos + 1) = lastBefore (some c) t pos := by
  simp only [lastBefore, List.take_succ_cons, List.getLast?_cons]
  cases (t.take pos).getLast? <;> rfl

theorem dotted_cons_iff {before : Option Char} {c : Char} {t : Text} {pos : Nat}
    (hnone : dropPrefix? (className ++ ['$']) (c :: t) = none) :
    Dotted className before (c :: t) pos ↔ ∃ p, pos = p + 1 ∧ Dotted className (some c) t p := by
  constructor
  · rintro ⟨hreads, hnamed, hfree⟩
    obtain ⟨p, rfl, hp⟩ := (reads_cons_iff hnone).1 hreads
    refine ⟨p, rfl, hp, namedAt_cons_succ.1 hnamed, ?_⟩
    rcases hfree with hfree | ⟨q, hq, hpos⟩
    · rw [lastBefore_cons_succ] at hfree
      exact .inl hfree
    · obtain ⟨q', rfl, hq'⟩ := (reads_cons_iff hnone).1 hq
      exact .inr ⟨q', hq', by omega⟩
  · rintro ⟨p, rfl, hreads, hnamed, hfree⟩
    refine ⟨(reads_cons_iff hnone).2 ⟨p, rfl, hreads⟩, namedAt_cons_succ.2 hnamed, ?_⟩
    rcases hfree with hfree | ⟨q, hq, hpos⟩
    · rw [lastBefore_cons_succ]
      exact .inl hfree
    · exact .inr ⟨q + 1, (reads_cons_iff hnone).2 ⟨q, rfl, hq⟩, by omega⟩

/-- Further behind an occurrence, the line there has the character before the place. -/
theorem lastBefore_name_succ (before : Option Char) {rest : Text} (hrest : rest ≠ []) (pos : Nat) :
    lastBefore before (className ++ '$' :: rest) (className.length + 1 + (pos + 1)) = lastBefore none rest (pos + 1) := by
  obtain ⟨c, t, rfl⟩ := List.exists_cons_of_ne_nil hrest
  have htake : (className ++ '$' :: c :: t).take (className.length + 1 + (pos + 1)) =
      className ++ '$' :: c :: t.take pos := by
    rw [Nat.add_assoc, List.take_length_add_append, Nat.add_comm 1, List.take_succ_cons, List.take_succ_cons]
  simp [lastBefore, htake, List.getLast?_append, List.getLast?_cons]

/-- Nothing is known to be before the text behind an occurrence: that makes a difference only directly behind it. -/
theorem free_name_iff {before : Option Char} {rest : Text} {pos : Nat} (hpos : Reads className rest pos) :
    ((lastBefore before (className ++ '$' :: rest) (className.length + 1 + pos)).any isIdentChar = false ∨
        ∃ q, Reads className (className ++ '$' :: rest) q ∧ className.length + 1 + pos = q + className.length + 1) ↔
      ((lastBefore none rest pos).any isIdentChar = false ∨ ∃ q, Reads className rest q ∧ pos = q + className.length + 1) := by
  cases pos with
  | zero => exact iff_of_true (.inr ⟨0, .here rfl, by omega⟩) (.inl rfl)
  | succ pos =>
    have hrest : rest ≠ [] := by
      rintro rfl
      exact not_reads_nil hpos
    rw [lastBefore_name_succ before hrest]
    refine or_congr_right ⟨?_, ?_⟩
    · rintro ⟨q, hq, heq⟩
      rcases reads_name_iff.1 hq with rfl | ⟨p, rfl, hp⟩
      · omega
      · exact ⟨p, hp, by omega⟩
    · rintro ⟨q, hq, heq⟩
      exact ⟨className.length + 1 + q, reads_name_iff.2 (.inr ⟨q, rfl, hq⟩), by omega⟩

theorem innerMark_eq_dot_iff {before : Option Char} {rest : Text} :
    innerMark before rest = '.' ↔ before.any isIdentChar = false ∧ opensInner rest = true := by
  unfold innerMark
  split <;> simp_all

theorem dotted_name_iff {before : Option Char} {rest : Text} {pos : Nat} :
    Dotted className before (className ++ '$' :: rest) pos ↔
      (pos = 0 ∧ innerMark before rest = '.') ∨ ∃ p, pos = className.length + 1 + p ∧ Dotted className none rest p := by
  constructor
  · rintro ⟨hreads, hnamed, hfree⟩
    rcases reads_name_iff.1 hreads with rfl | ⟨p, rfl, hp⟩
    · refine .inl ⟨rfl, innerMark_eq_dot_iff.2 ⟨?_, namedAt_name_zero.1 hnamed⟩⟩
      rcases hfree with hfree | ⟨q, -, hq⟩
      · exact hfree
      · omega
    · exact .inr ⟨p, rfl, hp, namedAt_name_add.1 hnamed, (free_name_iff hp).1 hfree⟩
  · rintro (⟨rfl, hmark⟩ | ⟨p, rfl, hreads, hnamed, hfree⟩)
    · obtain ⟨hbefore, hopen⟩ := innerMark_eq_dot_iff.1 hmark
      exact ⟨.here rfl, namedAt_name_zero.2 hopen, .inl hbefore⟩
    · exact ⟨.behind rfl hreads, namedAt_name_add.2 hnamed, (free_name_iff hreads).2 hfree⟩

/-- The mark behind the class name is a dot or the dollar sign itself. -/
theorem dotsAt_innerMark (before : Option Char) (rest : Text) :
    DotsAt className (fun pos => pos = 0 ∧ innerMark before rest = '.') (className ++ ['$'])
      (className ++ [innerMark before rest]) where
  length := by simp
  dots pos hpos := by simp [hpos.1, hpos.2]
  others i hi := by
    rcases Nat.lt_trichotomy i className.length with hlt | rfl | hgt
    · rw [List.getElem?_append_left hlt, List.getElem?_append_left hlt]
    · have hdollar : innerMark before rest = '$' := by
        have hdot : ¬ innerMark before rest = '.' := fun hmark => hi 0 ⟨rfl, hmark⟩ (Nat.zero_add _).symm
        unfold innerMark at hdot ⊢
        split at hdot
        · exact absurd rfl hdot
        · exact if_neg ‹_›
      rw [hdollar]
    · rw [List.getElem?_eq_none (by simp; omega), List.getElem?_eq_none (by simp; omega)]

/-- **The edit writes a dot** for the dollar signs at its places and leaves every other character. -/
theorem dotsAt_qualifyInner (before : Option Char) (l : Text) :
    DotsAt className (Dotted className before l) l (qualifyInner className before l) := by
  induction before, l using qualifyInner_induction className with
  | nil before =>
    rw [qualifyInner_nil]
    exact ⟨rfl, fun _ h => absurd h.reads not_reads_nil, fun _ _ => rfl⟩
  | plain before c t hnone ih =>
    rw [qualifyInner_of_none hnone]
    refine (dotsAt_self [c]).append ih fun pos => ?_
    rw [dotted_cons_iff hnone, false_or]
    simp only [List.length_singleton, Nat.add_comm 1]
  | name before rest ih =>
    rw [qualifyInner_name, List.append_cons className '$', List.append_cons className (innerMark before rest)]
    refine (dotsAt_innerMark before rest).append ih fun pos => ?_
    rw [← List.append_cons, dotted_name_iff]
    simp only [List.length_append, List.length_singleton]

/-! ## Boundaries -/

/-- **A line is edited exactly if and only if** no named inner class stands directly behind an occurrence that is read, and
    all those at boundaries are read. For a class name without dollar sign this means: no named inner class stands directly
    behind the class name with a dollar sign. -/
theorem qualifiesExactly_iff (className l : Text) :
    (QualifiesExactly className l (qualifyInner className none l) ↔
        (∀ pos, Reads className l pos → ¬ NamedAt className l (pos + className.length + 1)) ∧
          ∀ pos, NamedAt className l pos → AtBoundary l pos → Reads className l pos) ∧
      ('$' ∉ className →
        (QualifiesExactly className l (qualifyInner className none l) ↔
          ∀ pos, className ++ ['$'] <+: l.drop pos → ¬ NamedAt className l (pos + className.length + 1))) := by
  have hexact : QualifiesExactly className l (qualifyInner className none l) ↔
      (∀ pos, Reads className l pos → ¬ NamedAt className l (pos + className.length + 1)) ∧
        ∀ pos, NamedAt className l pos → AtBoundary l pos → Reads className l pos := by
    refine ((dotsAt_qualifyInner none l).iff (fun _ h => h.reads.stands) (fun _ h => h.1.stands)).trans ⟨?_, ?_⟩
    · intro hiff
      constructor
      · intro pos hreads hnamed
        have hdotted : Dotted className none l (pos + className.length + 1) :=
          ⟨hreads.next hnamed.stands, hnamed, .inr ⟨pos, hreads, rfl⟩⟩
        exact not_atBoundary_behind hreads.stands ((hiff _).1 hdotted).2
      · intro pos hnamed hboundary
        exact ((hiff pos).2 ⟨hnamed, hboundary⟩).reads
    · rintro ⟨hbehind, hall⟩ pos
      constructor
      · rintro ⟨-, hnamed, hfree | ⟨q, hq, rfl⟩⟩
        · exact ⟨hnamed, by rwa [lastBefore_none] at hfree⟩
        · exact absurd hnamed (hbehind q hq)
      · rintro ⟨hnamed, hboundary⟩
        exact ⟨hall pos hnamed hboundary, hnamed, .inl (by rwa [lastBefore_none])⟩
  refine ⟨hexact, fun hname => hexact.trans ⟨?_, ?_⟩⟩
  · intro h pos hstands
    exact h.1 pos (reads_of_stands hname hstands)
  · intro h
    exact ⟨fun pos hreads => h pos hreads.stands, fun pos hnamed _ => reads_of_stands hname hnamed.stands⟩

/-- The inner class of another class whose name ends with the class name is left alone, as is one without name. -/
theorem qualifiesExactly_block :
    '$' ∉ text "Block" ∧ QualifiesExactly (text "Block") (text "Block$Sound s = new Block$1(); OtherBlock$Sound o;")
      (text "Block.Sound s = new Block$1(); OtherBlock$Sound o;") := by
  have hresult : qualifyInner (text "Block") none (text "Block$Sound s = new Block$1(); OtherBlock$Sound o;") =
      text "Block.Sound s = new Block$1(); OtherBlock$Sound o;" := by decide +kernel
  have hapart : ∀ i < 50, (text "Block$Sound s = new Block$1(); OtherBlock$Sound o;")[i]? = some '$' →
      (text "Block$Sound s = new Block$1(); OtherBlock$Sound o;")[i + 6]? ≠ some '$' := by decide +kernel
  refine ⟨by decide, ?_⟩
  rw [← hresult]
  refine ((qualifiesExactly_iff (text "Block") _).2 (by decide)).2 fun pos hstands hnamed => ?_
  have hdollar := getElem?_of_stands hstands
  exact hapart _ (List.getElem?_eq_some_iff.1 hdollar).1 hdollar (getElem?_of_stands hnamed.stands)

/-- An inner class of a foreign class whose own name ends as an inner class of this one would: what stands before the second
    occurrence is forgotten, and its dollar sign becomes a dot. -/
theorem not_qualifiesExactly_foreign :
    ¬ QualifiesExactly (text "A") (text "XA$A$B b;") (qualifyInner (text "A") none (text "XA$A$B b;")) := by
  have hresult : qualifyInner (text "A") none (text "XA$A$B b;") = text "XA$A.B b;" := by decide +kernel
  intro h
  have hkept := h.others 4 fun pos hpos hplace => by
    obtain rfl : pos = 3 := (Nat.succ.inj hplace).symm
    exact absurd hpos.2 (by decide)
  rw [hresult] at hkept
  exact absurd hkept (by decide)

end JavaMend.Java
