import JavaMend.Proofs.Java.SingleCasts
import Mathlib.Data.List.DropRight

/-!
# `Proofs.Java.ThinnedLines` — text that goes from lines

Two edits of lines know no lexemes: one takes semicolons out behind a semicolon, the other takes blank lines out behind a
line end. Neither changes what the text behind is read as (`Thinned`), so what is said of places in code goes on to hold
(`InCode.thinned`).

## Contents
- **Thinned texts.** `GoesBehind`, `Thinned`; `Thinned.append`, `InCode.thinned`.
- **Casts.** `passes_thinned`, `castApart_of_thinned`.
- **Line ends.** `EndsTrimmed`; `endsTrimmed_iff`, `Thinned.endsTrimmed`.
- **Statements.** `semicolonTail`, `rowCount`, `dropEmpty`, `Collapsed`; `collapsed_of_le`, `thinned_dropEmptyStatements`.
- **Blank lines.** `spacedLines`; `thinned_squeezeBlank`, `thinned_spacedLines`, `inCode_collapseBlankLines`.
-/

namespace JavaMend.Java

open JavaMend Text

/-! ## Thinned texts -/

/-- What can go behind a character: gaps and semicolons behind a semicolon, and white space behind a line end. -/
def GoesBehind (c : Char) (r : Text) : Prop :=
  c = ';' ∧ (∀ d ∈ r, isGap d = true ∨ d = ';') ∨ c = '\n' ∧ ∀ d ∈ r, isBlank d = true

/-- **Reading a text from a mode on, some goes** behind semicolons and line ends, where it changes no mode or nothing
    comes after it. -/
inductive Thinned : Mode → Text → Text → Prop
  | nil {m : Mode} : Thinned m [] []
  | keep {m : Mode} (c : Char) {t s : Text} : Thinned (step m c t.head?).2 t s → Thinned m (c :: t) (c :: s)
  | drop {m : Mode} {c : Char} {r t s : Text} : GoesBehind c r →
      t = [] ∨ finish (step m c none).2 r t.head? = (step m c none).2 → Thinned (step m c none).2 t s →
      Thinned m (c :: (r ++ t)) (c :: s)

theorem GoesBehind.eq {c : Char} {r : Text} (h : GoesBehind c r) : c = ';' ∨ c = '\n' := h.imp And.left And.left

/-- Behind a semicolon or a line end, what comes next is of no account. -/
theorem GoesBehind.step_eq {c : Char} {r : Text} (h : GoesBehind c r) (m : Mode) (next : Option Char) :
    step m c next = step m c none := by
  rcases h.eq with rfl | rfl <;> cases m <;> simp [step]

theorem finish_append (m : Mode) (u t : Text) (next : Option Char) :
    finish m (u ++ t) next = finish (finish m u (t.head?.or next)) t next := by
  induction u generalizing m with
  | nil => rfl
  | cons c u ih => rw [List.cons_append, finish_cons, ih, finish_cons, List.head?_append, Option.or_assoc]

/-- What is left by a whole line is what the line is left in. -/
theorem finish_append_newline (m : Mode) (l : Text) (next : Option Char) : finish m (l ++ ['\n']) next = exit m l := by
  induction l generalizing m with
  | nil => rw [List.nil_append, finish_cons, step_newline, finish_nil]
  | cons c l ih =>
    have hstep : step m c ((l ++ ['\n']).head?.or next) = step m c l.head? := by
      cases l with
      | nil => exact step_before_newline m c
      | cons d l => rfl
    rw [List.cons_append, finish_cons, exit_cons, hstep, ih]

section
variable {m : Mode} {t s : Text}

theorem Thinned.head?_eq (h : Thinned m t s) : s.head? = t.head? := by cases h <;> rfl

theorem Thinned.append {u : Text} (h : Thinned (finish m u t.head?) t s) : Thinned m (u ++ t) (u ++ s) := by
  induction u generalizing m with
  | nil => exact h
  | cons c u ih =>
    rw [List.cons_append, List.cons_append]
    refine .keep c (ih ?_)
    rwa [List.head?_append]

/-- What comes behind a text is said of from the mode there on. -/
theorem InCode.of_finish {N : Text → Prop} {u : Text} (h : InCode N m (u ++ t)) : InCode N (finish m u t.head?) t := by
  induction u generalizing m with
  | nil => exact h
  | cons c u ih =>
    rw [List.cons_append] at h
    have hrest := ih h.2
    rwa [List.head?_append] at hrest

/-- **What is said of places in code goes on to hold** if it is kept where text goes. -/
theorem InCode.thinned {N : Text → Prop} (hkeep : ∀ m t s, Thinned m t s → N t → N s) (h : Thinned m t s)
    (ht : InCode N m t) : InCode N m s := by
  induction h with
  | nil => trivial
  | @keep m c t s h ih =>
    refine ⟨fun hm => hkeep _ _ _ (.keep c h) (ht.1 hm), ?_⟩
    rw [h.head?_eq]
    exact ih ht.2
  | @drop m c r t s hbehind hmode h ih =>
    refine ⟨fun hm => hkeep _ _ _ (.drop hbehind hmode h) (ht.1 hm), ?_⟩
    rw [hbehind.step_eq]
    rcases hmode with rfl | hmode
    · have hs := h.head?_eq
      rw [List.head?_nil, List.head?_eq_none_iff] at hs
      rw [hs]
      trivial
    · have hrest := ht.2
      rw [hbehind.step_eq] at hrest
      have hrest := hrest.of_finish
      rw [hmode] at hrest
      exact ih hrest

end

/-! ## Casts -/

/-- A character behind which nothing goes is let through. -/
theorem passes_thinned : Passes (fun c => c != ';' && c != '\n') fun t s => ∃ m, Thinned m t s := by
  rintro c t s hc ⟨m, h⟩
  simp only [Bool.and_eq_true, bne_iff_ne] at hc
  generalize hs : c :: s = r at h
  cases h with
  | nil => cases hs
  | keep d h =>
    obtain ⟨rfl, rfl⟩ := List.cons.inj hs
    exact ⟨_, rfl, _, h⟩
  | drop hbehind =>
    obtain ⟨rfl, -⟩ := List.cons.inj hs
    exact absurd hbehind.eq (not_or.2 hc)

theorem not_behind_of_inCast {c : Char} (hc : inCast c = true) : (c != ';' && c != '\n') = true :=
  of_inCast (p := fun c => c != ';' && c != '\n') (by decide) hc

/-- A cast that comes next did so before, as white space alone went in front of it. -/
theorem nextCast_of_thinned {m : Mode} {t s next : Text} (h : Thinned m t s) (hs : nextCast s = some next) :
    nextCast t = some next := by
  induction h with
  | nil => exact hs
  | @keep m c t s h ih =>
    rw [nextCast_cons] at hs ⊢
    split at hs
    · rw [if_pos ‹_›]
      exact ih hs
    · rw [if_neg ‹_›]
      obtain ⟨⟨type, rest⟩, hcast, rfl⟩ := Option.map_eq_some_iff.1 hs
      obtain ⟨u, hu, -⟩ := cast?_of_passes passes_thinned (fun _ => not_behind_of_inCast)
        (show ∃ m, Thinned m (c :: t) (c :: s) from ⟨m, .keep c h⟩) hcast
      rw [hu]
      rfl
  | @drop m c r t s hbehind _ h ih =>
    rcases hbehind with ⟨rfl, -⟩ | ⟨rfl, hr⟩
    · rw [nextCast_cons, if_neg (by decide), cast?_cons_of_ne (by decide)] at hs
      cases hs
    · rw [nextCast_cons, if_pos (by decide)] at hs ⊢
      rw [nextCast_append_blank hr]
      exact ih hs

/-- **Casts stay apart** where text goes. -/
theorem castApart_of_thinned (m : Mode) (t s : Text) (h : Thinned m t s) : CastApart t → CastApart s := by
  refine castApart_of_passes passes_thinned (fun _ => not_behind_of_inCast) (fun t s next => ?_) ⟨m, h⟩
  rintro ⟨m, h⟩ hs
  exact ⟨nextCast_of_thinned h hs, by rw [h.head?_eq]; exact id⟩

/-! ## Line ends -/

/-- No white space is at the end of a line. -/
def EndsTrimmed : Text → Prop
  | []     => True
  | c :: t => (EndsLine t → isBlank c = true → c = '\n') ∧ EndsTrimmed t

theorem trimEnd_eq_self_iff {t : Text} : trimEnd t = t ↔ ∀ c ∈ t.getLast?, isBlank c = false := by
  have hiff : trimEnd t = t ↔ _ := List.rdropWhile_eq_self_iff (p := isBlank) (l := t)
  rw [hiff]
  cases t using List.reverseRecOn with
  | nil => simp
  | append_singleton t c => simp

theorem endsTrimmed_iff (t : Text) : EndsTrimmed t ↔ ∀ l ∈ splitOn '\n' t, trimEnd l = l := by
  simp only [trimEnd_eq_self_iff]
  induction t with
  | nil => simp [EndsTrimmed, splitOn]
  | cons c t ih =>
    by_cases hc : c = '\n'
    · simp [EndsTrimmed, splitOn, hc, ih]
    · obtain ⟨l, ls, hl⟩ := List.exists_cons_of_ne_nil (splitOn_ne_nil '\n' t)
      -- The character ends a line exactly if the first line behind it is empty.
      have hends : EndsLine t ↔ l = [] := by
        cases t with
        | nil => simpa [EndsLine, splitOn, eq_comm] using (List.cons.inj hl).1.symm
        | cons d t =>
          rw [splitOn] at hl
          split at hl
          · simp [EndsLine, ‹d = '\n'›, ← (List.cons.inj hl).1]
          · split at hl <;> simp [EndsLine, ‹¬d = '\n'›, ← (List.cons.inj hl).1]
      have hsplit : splitOn '\n' (c :: t) = (c :: l) :: ls := by rw [splitOn, if_neg hc, hl]
      rw [EndsTrimmed, ih, hsplit, hl, hends, List.forall_mem_cons, List.forall_mem_cons]
      cases l with
      | nil => simp [hc]
      | cons d l => simp

theorem EndsTrimmed.of_append {u t : Text} (h : EndsTrimmed (u ++ t)) : EndsTrimmed t := by
  induction u with
  | nil => exact h
  | cons c u ih => exact ih h.2

theorem Thinned.endsTrimmed {m : Mode} {t s : Text} (h : Thinned m t s) (ht : EndsTrimmed t) : EndsTrimmed s := by
  induction h with
  | nil => trivial
  | @keep m c t s h ih => exact ⟨by rw [EndsLine, h.head?_eq]; exact ht.1, ih ht.2⟩
  | @drop m c r t s hbehind _ _ ih =>
    refine ⟨fun _ hblank => ?_, ih ht.2.of_append⟩
    rcases hbehind.eq with rfl | rfl
    · exact absurd hblank (by decide)
    · rfl

/-! ## Statements -/

/-- The gaps and semicolons at the end of a line. -/
def semicolonTail (l : Text) : Text := l.rtakeWhile fun c => isGap c || c == ';'

/-- The semicolons among them. -/
def rowCount (l : Text) : Nat := (semicolonTail l).count ';'

/-- What becomes of a line when empty statements are dropped. -/
def dropEmpty (l : Text) : Text := if isPlainCode l && !isForHeader l then collapseSemicolons l else l

theorem dropEmptyStatements_eq (t : Text) : dropEmptyStatements t = mapLines dropEmpty t := rfl

/-- A row of gaps and semicolons that has a semicolon has a first one. -/
theorem exists_first_semicolon {t : Text} (ht : ∀ c ∈ t, isGap c = true ∨ c = ';') (h : 1 ≤ t.count ';') :
    ∃ u, t = t.takeWhile isGap ++ ';' :: u := by
  have hsplit : t.takeWhile isGap ++ t.dropWhile isGap = t := List.takeWhile_append_dropWhile
  cases hrest : t.dropWhile isGap with
  | nil =>
    have hall : ∀ c ∈ t, isGap c = true := by simpa using hrest
    exact absurd (hall ';' (List.count_pos_iff.1 h)) (by decide)
  | cons c u =>
    have hc : isGap c = false := by
      have hhead := List.head?_dropWhile_not isGap t
      rwa [hrest] at hhead
    have hmem : c ∈ t := (List.dropWhile_sublist isGap).subset (hrest ▸ List.mem_cons_self)
    obtain rfl : c = ';' := (ht c hmem).resolve_left (by simp [hc])
    exact ⟨u, by rw [← hrest, hsplit]⟩

/-- With two semicolons or more it has a first and a last one. -/
theorem exists_semicolons {t : Text} (ht : ∀ c ∈ t, isGap c = true ∨ c = ';') (h : 2 ≤ t.count ';') :
    ∃ r, t = t.takeWhile isGap ++ ';' :: (r ++ ';' :: t.rtakeWhile isGap) := by
  have hnot : isGap ';' = false := by decide
  obtain ⟨u, hu⟩ := exists_first_semicolon ht (by omega)
  have hgaps : (t.takeWhile isGap).count ';' = 0 := by
    refine List.count_eq_zero.2 fun hmem => ?_
    rw [List.all_eq_true.1 List.all_takeWhile ';' hmem] at hnot
    cases hnot
  -- The last semicolon is the first one from the other end.
  have hcount : 1 ≤ u.reverse.count ';' := by
    rw [hu, List.count_append, hgaps] at h
    simpa using h
  have hback : ∀ c ∈ u.reverse, isGap c = true ∨ c = ';' := by
    intro c hc
    refine ht c ?_
    rw [hu]
    exact List.mem_append_right _ (List.mem_cons_of_mem _ (List.mem_reverse.1 hc))
  obtain ⟨v, hv⟩ := exists_first_semicolon hback hcount
  have htail : t.rtakeWhile isGap = (u.reverse.takeWhile isGap).reverse := by
    rw [List.rtakeWhile, hu]
    simp [takeWhile_append_cons hnot]
  refine ⟨v.reverse, ?_⟩
  have hrev := congrArg List.reverse hv
  rw [htail]
  simp only [List.reverse_reverse, List.reverse_append, List.reverse_cons, List.append_assoc, List.singleton_append] at hrev
  rw [← hrev]
  exact hu

/-- A line that ends with two semicolons or more, and the line with one. -/
inductive Collapsed : Text → Text → Prop
  | mk {x g r w : Text} : (∀ c ∈ x.getLast?, isGap c = false ∧ c ≠ ';') → (∀ c ∈ g, isGap c = true) →
      (∀ c ∈ r, isGap c = true ∨ c = ';') → (∀ c ∈ w, isGap c = true) →
      Collapsed (x ++ (g ++ ';' :: (r ++ ';' :: w))) (x ++ (g ++ ';' :: w))

theorem mem_semicolonTail {l : Text} {c : Char} (h : c ∈ semicolonTail l) : isGap c = true ∨ c = ';' := by
  have hc := List.mem_rtakeWhile_imp h
  simpa using hc

theorem semicolonTail_append {x u : Text} (hx : ∀ c ∈ x.getLast?, isGap c = false ∧ c ≠ ';')
    (hu : ∀ c ∈ u, isGap c = true ∨ c = ';') : semicolonTail (x ++ u) = u := by
  have hall : ∀ c ∈ u.reverse, (isGap c || c == ';') = true := fun c hc => by simpa using hu c (List.mem_reverse.1 hc)
  have hnone : x.reverse.takeWhile (fun c => isGap c || c == ';') = [] := by
    cases x using List.reverseRecOn with
    | nil => rfl
    | append_singleton x c =>
      obtain ⟨hgap, hne⟩ := hx c (by simp)
      simp [hgap, hne]
  rw [semicolonTail, List.rtakeWhile, List.reverse_append, List.takeWhile_append_of_pos hall, hnone, List.append_nil,
    List.reverse_reverse]

theorem collapseSemicolons_eq (l : Text) : collapseSemicolons l =
    if 2 ≤ rowCount l then
      l.rdropWhile (fun c => isGap c || c == ';')
        ++ (semicolonTail l).takeWhile isGap ++ ';' :: (semicolonTail l).rtakeWhile isGap
    else l := rfl

theorem collapsed_of_le {l : Text} (h : 2 ≤ rowCount l) : Collapsed l (collapseSemicolons l) := by
  obtain ⟨r, hr⟩ := exists_semicolons (fun c => mem_semicolonTail) h
  have hl : l.rdropWhile (fun c => isGap c || c == ';') ++ semicolonTail l = l := List.rdropWhile_append_rtakeWhile
  have hlast : ∀ c ∈ (l.rdropWhile fun c => isGap c || c == ';').getLast?, isGap c = false ∧ c ≠ ';' := by
    intro c hc
    obtain ⟨hne, rfl⟩ := List.mem_getLast?_eq_getLast hc
    have hnot := List.rdropWhile_last_not (fun c => isGap c || c == ';') l hne
    simpa using hnot
  have hmid : ∀ c ∈ r, isGap c = true ∨ c = ';' := by
    intro c hc
    refine mem_semicolonTail (l := l) ?_
    rw [hr]
    simp [hc]
  have hfirst : ∀ c ∈ (semicolonTail l).takeWhile isGap, isGap c = true := List.all_eq_true.1 List.all_takeWhile
  have hcollapsed := Collapsed.mk hlast hfirst hmid fun c hc => List.mem_rtakeWhile_imp (l := semicolonTail l) hc
  rw [← hr, hl] at hcollapsed
  rw [collapseSemicolons_eq, if_pos h, List.append_assoc]
  exact hcollapsed

theorem collapseSemicolons_of_lt {l : Text} (h : rowCount l < 2) : collapseSemicolons l = l := by
  rw [collapseSemicolons_eq, if_neg (Nat.not_le.2 h)]

/-- **One semicolon is left.** -/
theorem Collapsed.rowCount_eq {l k : Text} (h : Collapsed l k) : 2 ≤ rowCount l ∧ rowCount k = 1 := by
  cases h with
  | @mk x g r w hx hg hr hw =>
    have hcount {u : Text} (hu : ∀ c ∈ u, isGap c = true) : u.count ';' = 0 :=
      List.count_eq_zero.2 fun hmem => absurd (hu _ hmem) (by decide)
    have hrow {y : Text} (hy : ∀ c ∈ y, isGap c = true ∨ c = ';') :
        rowCount (x ++ (g ++ ';' :: y)) = y.count ';' + 1 := by
      have hall : ∀ c ∈ g ++ ';' :: y, isGap c = true ∨ c = ';' := by
        intro c hc
        simp only [List.mem_append, List.mem_cons] at hc
        rcases hc with hc | rfl | hc
        · exact .inl (hg c hc)
        · exact .inr rfl
        · exact hy c hc
      rw [rowCount, semicolonTail_append hx hall, List.count_append, hcount hg, List.count_cons_self, Nat.zero_add]
    have hrest : ∀ c ∈ r ++ ';' :: w, isGap c = true ∨ c = ';' := by
      intro c hc
      simp only [List.mem_append, List.mem_cons] at hc
      rcases hc with hc | rfl | hc
      · exact hr c hc
      · exact .inr rfl
      · exact .inl (hw c hc)
    refine ⟨?_, ?_⟩
    · rw [hrow hrest, List.count_append, List.count_cons_self]
      omega
    · rw [hrow fun c hc => .inl (hw c hc), hcount hw]

/-- So there is nothing to do again. -/
theorem collapseSemicolons_idem (l : Text) : collapseSemicolons (collapseSemicolons l) = collapseSemicolons l := by
  by_cases h : 2 ≤ rowCount l
  · refine collapseSemicolons_of_lt ?_
    rw [(collapsed_of_le h).rowCount_eq.2]
    decide
  · rw [collapseSemicolons_of_lt (Nat.lt_of_not_le h), collapseSemicolons_of_lt (Nat.lt_of_not_le h)]

theorem mem_dropEmpty {l : Text} {c : Char} (h : c ∈ dropEmpty l) : c ∈ l := by
  unfold dropEmpty at h
  split at h
  · by_cases hcount : 2 ≤ rowCount l
    · have hcollapsed := collapsed_of_le hcount
      generalize collapseSemicolons l = k at hcollapsed h
      cases hcollapsed with
      | mk =>
        simp only [List.mem_append, List.mem_cons] at h ⊢
        tauto
    · rwa [collapseSemicolons_of_lt (Nat.lt_of_not_le hcount)] at h
  · exact h

theorem dropEmpty_idem (l : Text) : dropEmpty (dropEmpty l) = dropEmpty l := by
  cases hcond : isPlainCode l && !isForHeader l with
  | false =>
    have hsame : dropEmpty l = l := by rw [dropEmpty, hcond, if_neg Bool.false_ne_true]
    rw [hsame, hsame]
  | true =>
    have hcollapse : dropEmpty l = collapseSemicolons l := by rw [dropEmpty, hcond, if_pos rfl]
    rw [hcollapse, dropEmpty]
    split
    · exact collapseSemicolons_idem l
    · rfl

theorem isInert_of_row {c : Char} (hc : isGap c = true ∨ c = ';') : isInert c = true :=
  isInert_of (p := fun c => isGap c || c == ';') (by decide) (by simpa using hc)

/-- A run of inert characters changes nothing behind an inert one. -/
theorem finish_behind {m : Mode} (hm : m.isProper = true) {u : Text} (hu : ∀ c ∈ u, isInert c = true) (y : Text)
    (next : Option Char) : finish m.behind (u ++ y) next = finish m.behind y next := by
  by_cases hne : u = []
  · rw [hne, List.nil_append]
  · rw [finish_run (isProper_behind hm) hne hu, behind_behind]

theorem isInert_row {r : Text} (hr : ∀ c ∈ r, isGap c = true ∨ c = ';') : ∀ c ∈ r ++ [';'], isInert c = true := by
  intro c hc
  rcases List.mem_append.1 hc with hc | hc
  · exact isInert_of_row (hr c hc)
  · exact isInert_of_row (.inr (List.mem_singleton.1 hc))

/-- The semicolons that go change no mode. -/
theorem finish_collapsed {m : Mode} (hm : m.isProper = true) {l k : Text} (hlk : Collapsed l k) (next : Option Char) :
    finish m k next = finish m l next := by
  cases hlk with
  | @mk x g r w _ _ hr _ =>
    have hproper := isProper_finish hm (x ++ g) (some ';')
    have hl : x ++ (g ++ ';' :: (r ++ ';' :: w)) = (x ++ g) ++ ';' :: ((r ++ [';']) ++ w) := by simp
    have hread (y : Text) : finish m ((x ++ g) ++ ';' :: y) next = finish (finish m (x ++ g) (some ';')).behind y next := by
      rw [finish_append, List.head?_cons, Option.some_or, finish_cons, step_of_isInert hproper (by decide)]
    rw [hl, ← List.append_assoc, hread, hread, finish_behind hproper (isInert_row hr)]

/-- Behind the first semicolon the other ones go. -/
theorem thinned_collapsed {m : Mode} (hm : m.isProper = true) {l k : Text} (hlk : Collapsed l k) {t s : Text}
    (h : Thinned (finish m l t.head?) t s) : Thinned m (l ++ t) (k ++ s) := by
  rw [← finish_collapsed hm hlk] at h
  cases hlk with
  | @mk x g r w _ _ hr _ =>
    have hproper := isProper_finish hm (x ++ g) (some ';')
    have hstep (next : Option Char) : (step (finish m (x ++ g) (some ';')) ';' next).2 =
        (finish m (x ++ g) (some ';')).behind := step_of_isInert hproper (by decide) next
    have hrow : ∀ c ∈ r ++ [';'], isGap c = true ∨ c = ';' := by
      intro c hc
      rcases List.mem_append.1 hc with hc | hc
      · exact hr c hc
      · exact .inr (List.mem_singleton.1 hc)
    rw [← List.append_assoc, finish_append, List.head?_cons, Option.some_or, finish_cons, hstep] at h
    have hdrop : Thinned (finish m (x ++ g) (some ';')) (';' :: ((r ++ [';']) ++ (w ++ t))) (';' :: (w ++ s)) := by
      refine .drop (.inl ⟨rfl, hrow⟩) (.inr ?_) ?_
      · rw [hstep, ← List.append_nil (r ++ [';']), finish_behind hproper (isInert_row hr), finish_nil]
      · rw [hstep]
        exact h.append
    have hall : Thinned m ((x ++ g) ++ ';' :: ((r ++ [';']) ++ (w ++ t))) ((x ++ g) ++ ';' :: (w ++ s)) := hdrop.append
    simpa using hall

theorem thinned_dropEmpty {m : Mode} (hm : m.isProper = true) (l : Text) {t s : Text}
    (h : Thinned (finish m l t.head?) t s) : Thinned m (l ++ t) (dropEmpty l ++ s) := by
  unfold dropEmpty
  split
  · by_cases hcount : 2 ≤ rowCount l
    · exact thinned_collapsed hm (collapsed_of_le hcount) h
    · rw [collapseSemicolons_of_lt (Nat.lt_of_not_le hcount)]
      exact h.append
  · exact h.append

/-- **Dropping empty statements thins a text.** -/
theorem thinned_dropEmptyStatements (t : Text) : Thinned .code t (dropEmptyStatements t) := by
  have hlines {m : Mode} (hm : m.isProper = true) (ls : List Text) :
      Thinned m (joinWith ['\n'] ls) (joinWith ['\n'] (ls.map dropEmpty)) := by
    induction ls generalizing m with
    | nil => exact .nil
    | cons l ls ih =>
      cases ls with
      | nil =>
        have hline := thinned_dropEmpty hm l (t := []) (s := []) .nil
        simpa [joinWith] using hline
      | cons k ks =>
        have hproper := isProper_finish hm l (some '\n')
        have hline := thinned_dropEmpty hm l (.keep '\n' (ih (isProper_step hproper '\n' _)))
        simpa [joinWith] using hline
  have hall := @hlines .code rfl (splitOn '\n' t)
  rwa [joinWith_splitOn] at hall

/-! ## Blank lines -/

/-- The lines that are kept when blank lines are collapsed. -/
def spacedLines (t : Text) : List Text := (squeezeBlank true (splitOn '\n' t)).rdropWhile isBlankLine

theorem mem_spacedLines {t l : Text} (h : l ∈ spacedLines t) : l ∈ splitOn '\n' t :=
  (squeezeBlank_sublist true _).subset ((List.rdropWhile_prefix isBlankLine _).subset h)

theorem collapseBlankLines_eq (t : Text) : collapseBlankLines t = unlines (spacedLines t) true := by
  have hkept : collapseBlankLines t =
      if (spacedLines t).isEmpty then [] else joinWith ['\n'] (spacedLines t) ++ ['\n'] := rfl
  rw [hkept]
  cases spacedLines t <;> simp [unlines, joinWith]

theorem unlines_cons_terminated (l : Text) (ls : List Text) : unlines (l :: ls) true = l ++ '\n' :: unlines ls true := by
  simp [unlines_terminated]

theorem unlines_append_terminated (ls ks : List Text) :
    unlines (ls ++ ks) true = unlines ls true ++ unlines ks true := by
  simp [unlines_terminated]

/-- A line end leads on from the mode before it. -/
theorem exit_finish (m : Mode) (l : Text) : exit (finish m l (some '\n')) [] = exit m l := by
  have hline := finish_append_newline m l none
  rw [finish_append, finish_cons, step_newline, finish_nil] at hline
  exact hline

/-- Where a line is kept, reading goes on behind it. -/
theorem thinned_line {m : Mode} {r : Text} (hr : ∀ c ∈ r, isBlank c = true)
    (hmode : ∀ next, finish (exit m []) r next = exit m []) (l : Text) {ls ks : List Text}
    (h : Thinned (finish (exit m []) l (some '\n')) ('\n' :: unlines ls true) ('\n' :: unlines ks true)) :
    Thinned m ('\n' :: (r ++ unlines (l :: ls) true)) ('\n' :: unlines (l :: ks) true) := by
  have hstep : (step m '\n' none).2 = exit m [] := by rw [step_newline]
  rw [unlines_cons_terminated, unlines_cons_terminated]
  refine .drop (.inr ⟨rfl, hr⟩) (.inr ?_) ?_
  · rw [hstep, hmode]
  · rw [hstep]
    exact h.append

/-- **Squeezing blank lines thins the lines**, read behind a line end. Where another blank line would not be kept, the line
    before was blank or there was none, so a blank line changes no mode. `r` holds the blank lines that went. -/
theorem thinned_squeezeBlank {m : Mode} {open_ : Bool} (hopen : open_ = true → exit (exit m []) [] = exit m [])
    {r : Text} (hr : ∀ c ∈ r, isBlank c = true) (hmode : ∀ next, finish (exit m []) r next = exit m []) (ls : List Text) :
    Thinned m ('\n' :: (r ++ unlines ls true)) ('\n' :: unlines (squeezeBlank open_ ls) true) := by
  fun_induction squeezeBlank open_ ls generalizing m r with
  | case1 => exact .drop (.inr ⟨rfl, hr⟩) (.inl rfl) .nil
  | case2 l ls hblank ih =>
    have hl : ∀ c ∈ r ++ (l ++ ['\n']), isBlank c = true := by
      intro c hc
      simp only [List.mem_append, List.mem_singleton] at hc
      rcases hc with hc | hc | rfl
      · exact hr c hc
      · exact List.all_eq_true.1 hblank c hc
      · exact isBlank_newline.1
    have hrest := ih hopen hl fun next => by
      rw [finish_append, hmode, finish_append_newline, exit_of_blank (opensLine_exit m []) hblank, hopen rfl]
    simpa [unlines_cons_terminated] using hrest
  | case3 open_ l ls hblank _ ih =>
    refine thinned_line hr hmode l (ih (fun _ => ?_) (r := []) (by simp) fun next => rfl)
    rw [exit_finish, exit_of_blank (opensLine_exit m []) hblank, exit_exit_nil (opensLine_exit _ _)]
  | case4 open_ l ls hblank ih =>
    exact thinned_line hr hmode l (ih (fun h => by cases h) (r := []) (by simp) fun next => rfl)

/-- What is dropped at the end is white space. -/
theorem thinned_spacedLines (m : Mode) (t : Text) :
    Thinned m ('\n' :: unlines (squeezeBlank true (splitOn '\n' t)) true) ('\n' :: unlines (spacedLines t) true) := by
  have hsplit : spacedLines t ++ (squeezeBlank true (splitOn '\n' t)).rtakeWhile isBlankLine =
      squeezeBlank true (splitOn '\n' t) := List.rdropWhile_append_rtakeWhile
  rw [← hsplit, unlines_append_terminated]
  have hblank : ∀ c ∈ unlines ((squeezeBlank true (splitOn '\n' t)).rtakeWhile isBlankLine) true, isBlank c = true := by
    intro c hc
    rw [unlines_terminated, List.mem_flatMap] at hc
    obtain ⟨l, hl, hc⟩ := hc
    rcases List.mem_append.1 hc with hc | hc
    · exact List.all_eq_true.1 (List.mem_rtakeWhile_imp (p := isBlankLine) hl) c hc
    · rw [List.mem_singleton.1 hc]
      exact isBlank_newline.1
  -- The text that is kept ends with the line end behind which the rest goes.
  obtain ⟨u, hu⟩ : ∃ u, '\n' :: unlines (spacedLines t) true = u ++ ['\n'] := by
    cases spacedLines t using List.reverseRecOn with
    | nil => exact ⟨[], rfl⟩
    | append_singleton ls l => exact ⟨'\n' :: (unlines ls true ++ l), by simp [unlines_terminated]⟩
  rw [← List.cons_append, hu, List.append_assoc]
  refine Thinned.append ?_
  have hdrop : Thinned (finish m u (some '\n')) ('\n' :: (_ ++ [])) ['\n'] := .drop (.inr ⟨rfl, hblank⟩) (.inl rfl) .nil
  simpa using hdrop

section
variable {N : Text → Prop}

theorem InCode.append_newline (hend : ∀ t, N t → N (t ++ ['\n'])) {m : Mode} {t : Text} (h : InCode N m t)
    (hnewline : N ['\n']) : InCode N m (t ++ ['\n']) := by
  induction t generalizing m with
  | nil => exact ⟨fun _ => hnewline, trivial⟩
  | cons c t ih =>
    rw [List.cons_append]
    refine ⟨fun hm => hend _ (h.1 hm), ?_⟩
    have hstep : step m c (t ++ ['\n']).head? = step m c t.head? := by
      cases t with
      | nil => exact step_before_newline m c
      | cons d t => rfl
    rw [hstep]
    exact ih h.2

/-- **What is said of places in code goes on to hold** when blank lines are collapsed, if text that goes and a line end at
    the end are of no account, and it holds at line ends. -/
theorem inCode_collapseBlankLines (hkeep : ∀ m t s, Thinned m t s → N t → N s) (hnewline : ∀ t, N ('\n' :: t))
    (hend : ∀ t, N t → N (t ++ ['\n'])) {t : Text} (h : InCode N .code t) : InCode N .code (collapseBlankLines t) := by
  have hopened : InCode N .code ('\n' :: unlines (splitOn '\n' t) true) := by
    have hlines : unlines (splitOn '\n' t) true = t ++ ['\n'] := by
      simp [unlines, joinWith_splitOn, splitOn_ne_nil]
    rw [hlines]
    exact ⟨fun _ => hnewline _, h.append_newline hend (hnewline [])⟩
  have hthinned : Thinned .code ('\n' :: unlines (splitOn '\n' t) true)
      ('\n' :: unlines (squeezeBlank true (splitOn '\n' t)) true) :=
    thinned_squeezeBlank (fun _ => rfl) (r := []) (by simp) (fun _ => rfl) (splitOn '\n' t)
  have hsqueezed := hopened.thinned hkeep hthinned
  rw [collapseBlankLines_eq]
  exact (hsqueezed.thinned hkeep (thinned_spacedLines .code t)).2

end

theorem passes_append_newline : Passes (fun c => c != '\n') fun t s => s = t ++ ['\n'] := by
  intro c t s hc hs
  cases t with
  | nil =>
    obtain ⟨rfl, -⟩ := List.cons.inj hs
    cases hc
  | cons d t =>
    obtain ⟨rfl, rfl⟩ := List.cons.inj hs
    exact ⟨t, rfl, rfl⟩

theorem nextCast_append_newline (t : Text) : nextCast (t ++ ['\n']) = nextCast t := by
  induction t with
  | nil => rw [List.nil_append, nextCast_cons, if_pos isBlank_newline.1]
  | cons c t ih =>
    rw [List.cons_append, nextCast_cons, nextCast_cons, ih, ← List.cons_append, cast?_append_cons (by decide),
      Option.map_map]
    rfl

theorem castApart_append_newline (t : Text) (h : CastApart t) : CastApart (t ++ ['\n']) := by
  have hcast : ∀ c, inCast c = true → (c != '\n') = true := fun c => of_inCast (p := fun c => c != '\n') (by decide)
  refine castApart_of_passes passes_append_newline hcast (fun t s next ht hs => ?_) rfl h
  subst ht
  rw [nextCast_append_newline] at hs
  refine ⟨hs, ?_⟩
  cases t with
  | nil => cases hs
  | cons c t => exact id

end JavaMend.Java
