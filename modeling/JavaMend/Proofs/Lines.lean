import JavaMend.Text.Lines

/-!
# `Proofs.Lines` — lines apart, joined, and ended otherwise

Lines that are joined and taken apart are the same lines. A text that is taken apart and joined has `\n` for each of its
terminators and is otherwise the same text (`unified_iff`). Which of the three terminators ends the lines of a text does
not show in its lines.

## Contents
- **Beginnings.** `lines_newline`, `lines_pair`, `lines_lone`, `lines_kept`; `lines_induction`.
- **Joining.** `lines_unlines`, `lines_unlines_open`; `ne_nil_of_getLast?_lines`; `getLast?_eq_newline_iff`,
  `endsWithNewline_unlines`, `not_mem_unlines`.
- **One terminator.** `Unified` with `Unified.lines_eq`, `Unified.endsWithNewline_eq`; `unified_unlines`, `unlines_lines`;
  `unified_iff`, `not_mem_toLF`, `toLF_of_not_mem`; `lines_unlines_open_iff`.
- **Other terminators.** `Ending`, `recode` with `unified_recode`, `lines_recode`, `endsWithNewline_recode`.
-/

namespace JavaMend.Text

/-! ## Beginnings -/

section
variable {c : Char} {t : Text}

theorem lines_newline (t : Text) : lines ('\n' :: t) = [] :: lines t := by rw [lines_cons (by decide), if_pos rfl]

theorem lines_pair (t : Text) : lines ('\r' :: '\n' :: t) = [] :: lines t := by rw [lines]

theorem lines_lone (h : t.head? ≠ some '\n') : lines ('\r' :: t) = [] :: lines t := by
  rw [lines]
  · simp
  · rintro t' - rfl
    exact h rfl

theorem lines_kept (hn : c ≠ '\n') (hr : c ≠ '\r') (t : Text) : lines (c :: t) = consLine c (lines t) := by
  rw [lines_cons hr, if_neg hn]

/-- **Induction on a text by what it begins with**: one of the terminators, or a character of its first line. -/
@[elab_as_elim]
theorem lines_induction {motive : Text → Prop} (nil : motive [])
    (newline : ∀ t, motive t → motive ('\n' :: t))
    (pair : ∀ t, motive t → motive ('\r' :: '\n' :: t))
    (lone : ∀ t, t.head? ≠ some '\n' → motive t → motive ('\r' :: t))
    (kept : ∀ c t, c ≠ '\n' → c ≠ '\r' → motive t → motive (c :: t)) (t : Text) : motive t := by
  induction t using lines.induct with
  | case1 => exact nil
  | case2 t ih => exact pair t ih
  | case3 c t hpair hc ih =>
    rcases hc with rfl | rfl
    · exact newline t ih
    · refine lone t (fun hhead => ?_) ih
      obtain ⟨t', rfl⟩ := List.head?_eq_some_iff.1 hhead
      exact hpair t' rfl rfl
  | case4 c t _ hc ih => exact kept c t (not_or.1 hc).1 (not_or.1 hc).2 ih

end

/-! ## Joining -/

/-- Joined lines that all are ended are each ended by `\n`. -/
theorem unlines_terminated (ls : List Text) : unlines ls true = ls.flatMap fun l => l ++ ['\n'] := by
  induction ls with
  | nil => rfl
  | cons l ls ih =>
    rw [List.flatMap_cons, ← ih]
    cases ls with
    | nil => simp [unlines, joinWith]
    | cons k ks => simp [unlines, joinWith]

/-- **Lines that are joined are the lines of what they make.** -/
theorem lines_unlines {ls : List Text} (h : ∀ l ∈ ls, '\n' ∉ l ∧ '\r' ∉ l) : lines (unlines ls true) = ls := by
  rw [unlines_terminated, lines_terminated h]

/-- A text without terminators is one line, if it is not empty. -/
theorem lines_of_not_mem {l : Text} (hn : '\n' ∉ l) (hr : '\r' ∉ l) (hne : l ≠ []) : lines l = [l] := by
  induction l with
  | nil => exact absurd rfl hne
  | cons c l ih =>
    rw [List.mem_cons, not_or] at hn hr
    rw [lines_cons (Ne.symm hr.1), if_neg (Ne.symm hn.1)]
    cases l with
    | nil => rfl
    | cons d l => rw [ih hn.2 hr.2 (by simp), consLine]

/-- **Lines of which the last one is not ended** are the lines of what they make, if it is not empty. -/
theorem lines_unlines_open {ls : List Text} (h : ∀ l ∈ ls, '\n' ∉ l ∧ '\r' ∉ l) (hlast : ∀ l ∈ ls.getLast?, l ≠ []) :
    lines (unlines ls false) = ls := by
  induction ls with
  | nil => rfl
  | cons l ls ih =>
    obtain ⟨⟨hn, hr⟩, hls⟩ := List.forall_mem_cons.1 h
    cases ls with
    | nil => simpa [unlines, joinWith] using lines_of_not_mem hn hr (hlast l rfl)
    | cons k ks =>
      have hrest := ih hls fun m hm => hlast m (by rwa [List.getLast?_cons_cons])
      simp only [unlines, joinWith, Bool.false_and, Bool.false_eq_true, if_false, List.append_nil] at hrest ⊢
      rw [List.append_assoc, List.singleton_append, lines_append_newline hn hr, hrest]

theorem consLine_ne_nil (c : Char) (ls : List Text) : consLine c ls ≠ [] := by
  cases ls <;> simp [consLine]

theorem lines_eq_nil_iff {t : Text} : lines t = [] ↔ t = [] := by
  refine ⟨fun h => ?_, fun h => by rw [h, lines_nil]⟩
  unfold lines at h
  split at h
  · rfl
  · cases h
  · split at h
    · cases h
    · exact absurd h (consLine_ne_nil _ _)

theorem endsWithNewline_cons (c : Char) {t : Text} (h : t ≠ []) : endsWithNewline (c :: t) = endsWithNewline t := by
  obtain ⟨d, t, rfl⟩ := List.exists_cons_of_ne_nil h
  simp only [endsWithNewline, List.getLast?_cons_cons]

/-- A text that is not ended has something in its last line. -/
theorem ne_nil_of_getLast?_lines {t : Text} (h : endsWithNewline t = false) : ∀ l ∈ (lines t).getLast?, l ≠ [] := by
  -- Behind a terminator there are more lines, or else the text is ended.
  have hended {c : Char} {t : Text} (hc : endsWithNewline [c] = true)
      (ih : endsWithNewline t = false → ∀ l ∈ (lines t).getLast?, l ≠ []) (h : endsWithNewline (c :: t) = false) :
      ∀ l ∈ ([] :: lines t).getLast?, l ≠ [] := by
    have hne : t ≠ [] := by
      rintro rfl
      exact Bool.false_ne_true (h.symm.trans hc)
    obtain ⟨m, ms, hms⟩ := List.exists_cons_of_ne_nil (mt lines_eq_nil_iff.1 hne)
    rw [hms, List.getLast?_cons_cons, ← hms]
    exact ih ((endsWithNewline_cons c hne).symm.trans h)
  induction t using lines_induction with
  | nil => simp
  | newline t ih =>
    rw [lines_newline]
    exact hended rfl ih h
  | pair t ih =>
    rw [endsWithNewline_cons '\r' (List.cons_ne_nil _ _)] at h
    rw [lines_pair]
    exact hended rfl ih h
  | lone t hlone ih =>
    rw [lines_lone hlone]
    exact hended rfl ih h
  | kept c t hn hr ih =>
    rw [lines_kept hn hr]
    by_cases hnil : t = []
    · subst hnil
      simp [consLine]
    · rw [endsWithNewline_cons c hnil] at h
      obtain ⟨m, ms, hms⟩ := List.exists_cons_of_ne_nil (mt lines_eq_nil_iff.1 hnil)
      rw [hms, consLine]
      cases ms with
      | nil => simp
      | cons k ks =>
        have hrest := ih h
        rw [hms, List.getLast?_cons_cons] at hrest
        rwa [List.getLast?_cons_cons]

theorem joinWith_concat_nil {ls : List Text} (h : ls ≠ []) : joinWith ['\n'] (ls ++ [[]]) = joinWith ['\n'] ls ++ ['\n'] := by
  induction ls with
  | nil => exact absurd rfl h
  | cons l ls ih =>
    cases ls with
    | nil => simp [joinWith]
    | cons k ks =>
      have hrest := ih (by simp)
      rw [List.cons_append] at hrest ⊢
      rw [List.cons_append, joinWith, hrest, joinWith]
      simp

/-- A text ends with a line end if its last line is empty and not the only one. -/
theorem getLast?_eq_newline_iff {t : Text} : t.getLast? = some '\n' ↔ ∃ ls, ls ≠ [] ∧ splitOn '\n' t = ls ++ [[]] := by
  constructor
  · intro h
    obtain ⟨u, rfl⟩ := List.getLast?_eq_some_iff.1 h
    exact ⟨splitOn '\n' u, splitOn_ne_nil '\n' u, splitOn_append '\n' u []⟩
  · rintro ⟨ls, hne, hls⟩
    rw [← joinWith_splitOn '\n' t, hls, joinWith_concat_nil hne, List.getLast?_concat]

/-- Joined lines that all are ended end with a terminator. -/
theorem endsWithNewline_unlines {ls : List Text} (h : ls ≠ []) : endsWithNewline (unlines ls true) = true := by
  simp [endsWithNewline, unlines, h]

/-- A character other than `\n` that is in no line is not in the lines joined. -/
theorem not_mem_unlines {c : Char} (hc : c ≠ '\n') {ls : List Text} (h : ∀ l ∈ ls, c ∉ l) (terminated : Bool) :
    c ∉ unlines ls terminated := by
  unfold unlines
  intro hmem
  rcases List.mem_append.1 hmem with hmem | hmem
  · rcases mem_joinWith hmem with hsep | ⟨l, hl, hcl⟩
    · exact hc (by simpa using hsep)
    · exact h l hl hcl
  · split at hmem
    · exact hc (by simpa using hmem)
    · cases hmem

/-! ## One terminator -/

section
variable {c : Char} {t u : Text}

/-- **The second text is the first one with `\n` for every terminator**: for each `\r\n`, and for each `\r` that no `\n`
    follows. All else stays. -/
inductive Unified : Text → Text → Prop
  | nil : Unified [] []
  | keep {c : Char} {t u : Text} : c ≠ '\r' → Unified t u → Unified (c :: t) (c :: u)
  | pair {t u : Text} : Unified t u → Unified ('\r' :: '\n' :: t) ('\n' :: u)
  | lone {t u : Text} : t.head? ≠ some '\n' → Unified t u → Unified ('\r' :: t) ('\n' :: u)

/-- Which terminators a text has does not show in its lines. -/
theorem Unified.lines_eq (h : Unified t u) : lines u = lines t := by
  induction h with
  | nil => rfl
  | keep hc _ ih => rw [lines_cons hc, lines_cons hc, ih]
  | pair _ ih => rw [lines_newline, lines_pair, ih]
  | lone hlone _ ih => rw [lines_newline, lines_lone hlone, ih]

theorem Unified.eq_nil_iff (h : Unified t u) : u = [] ↔ t = [] := by
  rw [← lines_eq_nil_iff, h.lines_eq, lines_eq_nil_iff]

/-- Nor does it show in whether the last one is ended. -/
theorem Unified.endsWithNewline_eq (h : Unified t u) : endsWithNewline u = endsWithNewline t := by
  -- A terminator or another character in front of both texts.
  have hcons {c d : Char} {t u : Text} (hend : endsWithNewline [c] = endsWithNewline [d]) (hnil : u = [] ↔ t = [])
      (ih : endsWithNewline u = endsWithNewline t) : endsWithNewline (c :: u) = endsWithNewline (d :: t) := by
    by_cases ht : t = []
    · rw [ht, hnil.2 ht, hend]
    · rw [endsWithNewline_cons c (mt hnil.1 ht), endsWithNewline_cons d ht, ih]
  induction h with
  | nil => rfl
  | keep _ h ih => exact hcons rfl h.eq_nil_iff ih
  | pair h ih =>
    rw [endsWithNewline_cons '\r' (List.cons_ne_nil _ _)]
    exact hcons rfl h.eq_nil_iff ih
  | lone _ h ih => exact hcons rfl h.eq_nil_iff ih

theorem Unified.not_mem (h : Unified t u) : '\r' ∉ u := by
  induction h with
  | nil => simp
  | keep hc _ ih => simp [ih, Ne.symm hc]
  | pair _ ih => simp [ih]
  | lone _ _ ih => simp [ih]

/-- A text without carriage returns has nothing to unify. -/
theorem Unified.eq_of_not_mem (h : Unified t u) (ht : '\r' ∉ t) : u = t := by
  induction h with
  | nil => rfl
  | keep _ _ ih => rw [ih fun hmem => ht (List.mem_cons_of_mem _ hmem)]
  | pair _ _ => simp at ht
  | lone _ _ _ => simp at ht

/-- A character in front of joined lines is one in front of the first of them. -/
theorem unlines_consLine {c : Char} {ls : List Text} (h : ls ≠ []) (terminated : Bool) :
    unlines (consLine c ls) terminated = c :: unlines ls terminated := by
  obtain ⟨l, ls, rfl⟩ := List.exists_cons_of_ne_nil h
  simp [unlines, consLine, joinWith_cons_cons]

/-- An empty line in front of joined lines is a terminator in front of them. -/
theorem unlines_nil_cons {ls : List Text} (h : ls ≠ []) (terminated : Bool) :
    unlines ([] :: ls) terminated = '\n' :: unlines ls terminated := by
  obtain ⟨l, ls, rfl⟩ := List.exists_cons_of_ne_nil h
  simp [unlines, joinWith]

/-- Behind a terminator the text goes on; if it does not, the one line is ended. -/
theorem unlines_lines_ended (hc : endsWithNewline [c] = true) (t : Text) :
    unlines ([] :: lines t) (endsWithNewline (c :: t)) = '\n' :: unlines (lines t) (endsWithNewline t) := by
  cases t with
  | nil =>
    rw [hc]
    rfl
  | cons d t =>
    rw [endsWithNewline_cons c (List.cons_ne_nil d t), unlines_nil_cons (mt lines_eq_nil_iff.1 (List.cons_ne_nil d t))]

/-- Behind another character the line goes on; if the text does not, the one line is not ended. -/
theorem unlines_lines_kept (hn : c ≠ '\n') (hr : c ≠ '\r') (t : Text) :
    unlines (consLine c (lines t)) (endsWithNewline (c :: t)) = c :: unlines (lines t) (endsWithNewline t) := by
  cases t with
  | nil => simp [unlines, consLine, joinWith, endsWithNewline, hn, hr]
  | cons d t =>
    rw [endsWithNewline_cons c (List.cons_ne_nil d t), unlines_consLine (mt lines_eq_nil_iff.1 (List.cons_ne_nil d t))]

/-- **The lines of a text, joined, are the text with `\n` for every terminator**, the last one ended if the text ends so. -/
theorem unified_unlines (t : Text) : Unified t (unlines (lines t) (endsWithNewline t)) := by
  induction t using lines_induction with
  | nil => exact .nil
  | newline t ih =>
    rw [lines_newline, unlines_lines_ended rfl]
    exact .keep (by decide) ih
  | pair t ih =>
    rw [lines_pair, endsWithNewline_cons '\r' (List.cons_ne_nil _ _), unlines_lines_ended rfl]
    exact .pair ih
  | lone t hlone ih =>
    rw [lines_lone hlone, unlines_lines_ended rfl]
    exact .lone hlone ih
  | kept c t hn hr ih =>
    rw [lines_kept hn hr, unlines_lines_kept hn hr]
    exact .keep hr ih

/-- **A text without carriage returns is its lines joined**, the last one ended if the text ends so. -/
theorem unlines_lines (h : '\r' ∉ t) : unlines (lines t) (endsWithNewline t) = t :=
  (unified_unlines t).eq_of_not_mem h

/-- **The lines of a text, joined, are its normal form**, the text itself if it has no carriage return. -/
theorem unlines_lines_eq_toLF (t : Text) : unlines (lines t) (endsWithNewline t) = toLF t := by
  unfold toLF
  split
  · rfl
  · exact unlines_lines ‹_›

/-- **One text alone is the text with `\n` for every terminator**: the normal form. Its lines and its end leave no choice. -/
theorem unified_iff : Unified t u ↔ u = toLF t := by
  constructor
  · intro h
    calc u = unlines (lines u) (endsWithNewline u) := (unlines_lines h.not_mem).symm
      _ = unlines (lines t) (endsWithNewline t) := by rw [h.lines_eq, h.endsWithNewline_eq]
      _ = toLF t := unlines_lines_eq_toLF t
  · rintro rfl
    rw [← unlines_lines_eq_toLF]
    exact unified_unlines t

theorem not_mem_toLF (t : Text) : '\r' ∉ toLF t := (unified_iff.2 rfl).not_mem

theorem toLF_of_not_mem (h : '\r' ∉ t) : toLF t = t := if_neg h

/-- Lines that are what they make are ended in it as they were joined. -/
theorem endsWithNewline_unlines_of_lines {ls : List Text} {terminated : Bool} (hne : ls ≠ [])
    (hr : '\r' ∉ unlines ls terminated) (h : lines (unlines ls terminated) = ls) :
    endsWithNewline (unlines ls terminated) = terminated := by
  cases terminated with
  | true => exact endsWithNewline_unlines hne
  | false =>
    -- With a terminator at the end the lines would make more.
    refine Bool.eq_false_iff.2 fun hends => ?_
    have hjoined := unlines_lines hr
    rw [h, hends] at hjoined
    simp [unlines, hne] at hjoined

/-- **Lines of which the last one is not ended are the lines of what they make just if the last one is not empty.** -/
theorem lines_unlines_open_iff {ls : List Text} (h : ∀ l ∈ ls, '\n' ∉ l ∧ '\r' ∉ l) :
    lines (unlines ls false) = ls ↔ ls.getLast? ≠ some [] := by
  constructor
  · intro hlines hlast
    have hne : ls ≠ [] := by
      rintro rfl
      cases hlast
    have hr : '\r' ∉ unlines ls false := not_mem_unlines (by decide) (fun l hl => (h l hl).2) false
    refine ne_nil_of_getLast?_lines (endsWithNewline_unlines_of_lines hne hr hlines) [] ?_ rfl
    rwa [hlines]
  · intro hlast
    exact lines_unlines_open h fun l hl hnil => hlast (hnil ▸ hl)

end

/-! ## Other terminators -/

/-- A line terminator other than `\n`. -/
inductive Ending where
  | crlf
  | cr
deriving DecidableEq

/-- The characters of a terminator. -/
def Ending.mark : Ending → Text
  | crlf => ['\r', '\n']
  | cr   => ['\r']

/-- The text with another terminator for every `\n`. -/
def recode (e : Ending) (t : Text) : Text := t.flatMap fun c => if c = '\n' then e.mark else [c]

/-- After a lone carriage return no `\n` comes: none is left. -/
theorem newline_not_mem_recode_cr (t : Text) : '\n' ∉ recode .cr t := by
  intro hmem
  obtain ⟨c, -, hc⟩ := List.mem_flatMap.1 hmem
  split at hc
  · exact absurd hc (by decide)
  · rename_i hne
    exact hne (List.mem_singleton.1 hc).symm

/-- **A text with other terminators is the text, up to them.** -/
theorem unified_recode {t : Text} (h : '\r' ∉ t) (e : Ending) : Unified (recode e t) t := by
  induction t with
  | nil => exact .nil
  | cons c t ih =>
    obtain ⟨hc, ht⟩ := not_or.1 (mt List.mem_cons.2 h)
    rw [recode, List.flatMap_cons, ← recode]
    by_cases hn : c = '\n'
    · rw [if_pos hn, hn]
      cases e with
      | crlf => exact .pair (ih ht)
      | cr =>
        refine .lone (fun hhead => ?_) (ih ht)
        exact newline_not_mem_recode_cr t (List.mem_of_mem_head? hhead)
    · rw [if_neg hn]
      exact .keep (Ne.symm hc) (ih ht)

/-- **A text has the same lines whatever ends them.** -/
theorem lines_recode {t : Text} (h : '\r' ∉ t) (e : Ending) : lines (recode e t) = lines t :=
  (unified_recode h e).lines_eq.symm

theorem recode_eq_nil (e : Ending) (t : Text) : recode e t = [] ↔ t = [] := by
  cases t with
  | nil => simp [recode]
  | cons c t =>
    have hmark : e.mark ≠ [] := by cases e <;> simp [Ending.mark]
    simp only [recode, List.flatMap_cons, List.append_eq_nil_iff, reduceCtorEq, iff_false, not_and]
    split <;> simp [hmark]

/-- A text ends with a terminator also if its terminators are others. -/
theorem endsWithNewline_recode {t : Text} (h : '\r' ∉ t) (e : Ending) :
    endsWithNewline (recode e t) = endsWithNewline t :=
  (unified_recode h e).endsWithNewline_eq.symm

end JavaMend.Text
