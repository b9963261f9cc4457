import JavaMend.Java.Labels
import JavaMend.Proofs.Lines
import Mathlib.Data.List.Basic

/-!
# `Proofs.Java.LabelSpacing` — the runs of blank lines that go

A text is a row of lines that are not blank, with runs of blank lines around them. Tightening labels takes out the runs
next to a label, each as a whole, and nothing else (`tightens_iff`). What is left can be taken apart into its lines again,
so tightening it once more changes nothing.

## Contents
- **Labels.** `LabelLine`; `isLabel_iff`.
- **Runs.** `TouchesLabel`, `Remains`, `Tightens`.
- **The rule on lines.** `spaceLines_run`, `tightens_spaceLines`, `Tightens.eq`; `tightens_iff`, `Tightens.again`.
- **Texts.** `lines_tightenLabels_eq`; `tightens_tightenLabels`.
-/

namespace JavaMend.Java

open JavaMend Text

/-! ## Labels -/

/-- Behind white space the line opens with `case` or `default` as a word of its own, and goes on. -/
def LabelLine (l : Text) : Prop :=
  ∃ indent word c rest, l = indent ++ word ++ c :: rest ∧ (∀ d ∈ indent, isBlank d = true)
    ∧ (word = text "case" ∨ word = text "default") ∧ isIdentChar c = false

theorem opensWith_iff {word t : Text} :
    opensWith word t = true ↔ ∃ c rest, t = word ++ c :: rest ∧ isIdentChar c = false := by
  unfold opensWith
  split
  · rename_i c rest h
    rw [dropPrefix?_eq_some] at h
    simp [h]
  · rename_i hnone
    simp only [Bool.false_eq_true, false_iff]
    rintro ⟨c, rest, ht, -⟩
    exact hnone c rest (dropPrefix?_eq_some.2 ht)

/-- White space in front of a text that opens otherwise is what is trimmed. -/
theorem trimStart_eq_iff {l t : Text} (ht : ∀ c ∈ t.head?, isBlank c = false) :
    trimStart l = t ↔ ∃ indent, l = indent ++ t ∧ ∀ d ∈ indent, isBlank d = true := by
  constructor
  · rintro rfl
    exact ⟨l.takeWhile isBlank, List.takeWhile_append_dropWhile.symm, List.all_eq_true.1 List.all_takeWhile⟩
  · rintro ⟨indent, rfl, hindent⟩
    rw [trimStart, List.dropWhile_append_of_pos hindent]
    cases t with
    | nil => rfl
    | cons c t => rw [List.dropWhile_cons_of_neg (by simp [ht c rfl])]

theorem isLabel_iff {l : Text} : isLabel l = true ↔ LabelLine l := by
  have hword {word : Text} (hopens : ∀ c ∈ word.head?, isBlank c = false) (hne : word ≠ []) :
      opensWith word (trimStart l) = true ↔
        ∃ indent c rest, l = indent ++ word ++ c :: rest ∧ (∀ d ∈ indent, isBlank d = true) ∧ isIdentChar c = false := by
    rw [opensWith_iff]
    constructor
    · rintro ⟨c, rest, ht, hc⟩
      have hhead : ∀ d ∈ (word ++ c :: rest).head?, isBlank d = false := by
        rwa [List.head?_append_of_ne_nil _ hne]
      obtain ⟨indent, hl, hindent⟩ := (trimStart_eq_iff hhead).1 ht
      exact ⟨indent, c, rest, by rw [hl, List.append_assoc], hindent, hc⟩
    · rintro ⟨indent, c, rest, hl, hindent, hc⟩
      have hhead : ∀ d ∈ (word ++ c :: rest).head?, isBlank d = false := by
        rwa [List.head?_append_of_ne_nil _ hne]
      exact ⟨c, rest, (trimStart_eq_iff hhead).2 ⟨indent, by rw [hl, List.append_assoc], hindent⟩, hc⟩
  have hcase := @hword (text "case") (fun c hc => by cases hc; decide) (by decide)
  have hdefault := @hword (text "default") (fun c hc => by cases hc; decide) (by decide)
  rw [isLabel, Bool.or_eq_true, hcase, hdefault]
  constructor
  · rintro (⟨indent, c, rest, hl, hindent, hc⟩ | ⟨indent, c, rest, hl, hindent, hc⟩)
    · exact ⟨indent, _, c, rest, hl, hindent, .inl rfl, hc⟩
    · exact ⟨indent, _, c, rest, hl, hindent, .inr rfl, hc⟩
  · rintro ⟨indent, word, c, rest, hl, hindent, rfl | rfl, hc⟩
    · exact .inl ⟨indent, c, rest, hl, hindent, hc⟩
    · exact .inr ⟨indent, c, rest, hl, hindent, hc⟩

/-! ## Runs -/

/-- The line before or the line after is a label; there is none at an end of the text. -/
def TouchesLabel (before after : Option Text) : Prop := ∃ l, (l ∈ before ∨ l ∈ after) ∧ LabelLine l

/-- What stays of a run of blank lines: nothing next to a label, and else the whole run. -/
def Remains (before after : Option Text) (run kept : List Text) : Prop :=
  (TouchesLabel before after → kept = []) ∧ (¬ TouchesLabel before after → kept = run)

/-- **Of lines that follow a line, the runs of blank lines next to a label go**, each as a whole, and the others stay, as do
    the lines between the runs. A run, which may be empty, ends before a line that is not blank or with the text. -/
inductive Tightens : Option Text → List Text → List Text → Prop
  | last {before : Option Text} {run kept : List Text} : (∀ l ∈ run, isBlankLine l = true) → Remains before none run kept →
      Tightens before run kept
  | line {before : Option Text} {run kept ls ks : List Text} {l : Text} : (∀ b ∈ run, isBlankLine b = true) →
      isBlankLine l = false → Remains before (some l) run kept → Tightens (some l) ls ks →
      Tightens before (run ++ l :: ls) (kept ++ l :: ks)

theorem touchesLabel_iff {before after : Option Text} :
    TouchesLabel before after ↔ (before.any isLabel || after.any isLabel) = true := by
  simp only [TouchesLabel, ← isLabel_iff, Bool.or_eq_true, Option.any_eq_true, or_and_right, exists_or, Option.mem_def]

theorem remains_iff {before after : Option Text} {run kept : List Text} :
    Remains before after run kept ↔ kept = if before.any isLabel || after.any isLabel then [] else run := by
  rw [Remains, touchesLabel_iff]
  split
  · rename_i h
    simp [h]
  · rename_i h
    simp [h]

/-! ## The rule on lines -/

/-- A run of blank lines is kept for later. -/
theorem spaceLines_run {afterLabel : Bool} {blanks run : List Text} (h : ∀ l ∈ run, isBlankLine l = true) (ls : List Text) :
    spaceLines afterLabel blanks (run ++ ls) = spaceLines afterLabel (blanks ++ run) ls := by
  induction run generalizing blanks with
  | nil => rw [List.nil_append, List.append_nil]
  | cons b run ih =>
    obtain ⟨hb, hrun⟩ := List.forall_mem_cons.1 h
    rw [List.cons_append, spaceLines_blank hb, ih hrun, List.append_assoc, List.singleton_append]

/-- **The rule takes out what is to go**, with a run that was kept for later in front. -/
theorem tightens_spaceLines (before : Option Text) {run : List Text} (h : ∀ l ∈ run, isBlankLine l = true)
    (ls : List Text) : Tightens before (run ++ ls) (spaceLines (before.any isLabel) run ls) := by
  induction ls generalizing before run with
  | nil =>
    rw [List.append_nil]
    exact .last h (remains_iff.2 (by simp [spaceLines]))
  | cons l ls ih =>
    cases hl : isBlankLine l with
    | true =>
      rw [spaceLines_blank hl, List.append_cons]
      refine ih before fun b hb => ?_
      rcases List.mem_append.1 hb with hb | hb
      · exact h b hb
      · rwa [List.mem_singleton.1 hb]
    | false =>
      have hrest : Tightens (some l) ([] ++ ls) _ := ih (some l) (by simp)
      rw [spaceLines, hl, if_neg Bool.false_ne_true]
      exact .line h hl (remains_iff.2 rfl) hrest

/-- Nothing else than the rule says can be left. -/
theorem Tightens.eq {before : Option Text} {ls ks : List Text} (h : Tightens before ls ks) :
    ks = spaceLines (before.any isLabel) [] ls := by
  induction h with
  | @last before run kept hrun hkept =>
    have hspaced : spaceLines (before.any isLabel) [] (run ++ []) = spaceLines (before.any isLabel) ([] ++ run) [] :=
      spaceLines_run hrun []
    rw [List.append_nil, List.nil_append] at hspaced
    rw [hspaced, remains_iff.1 hkept, spaceLines]
    simp
  | @line before run kept ls ks l hrun hl hkept _ ih =>
    rw [spaceLines_run hrun, List.nil_append, spaceLines, hl, if_neg Bool.false_ne_true, remains_iff.1 hkept, ih]
    rfl

theorem tightens_iff {before : Option Text} {ls ks : List Text} :
    Tightens before ls ks ↔ ks = spaceLines (before.any isLabel) [] ls :=
  ⟨Tightens.eq, fun h => h ▸ @tightens_spaceLines before [] (by simp) ls⟩

/-- **What is left has nothing more to lose**: its runs are next to the same lines as before. -/
theorem Tightens.again {before : Option Text} {ls ks : List Text} (h : Tightens before ls ks) : Tightens before ks ks := by
  have hremains {before after : Option Text} {run kept : List Text} (hkept : Remains before after run kept)
      (hrun : ∀ l ∈ run, isBlankLine l = true) : Remains before after kept kept ∧ ∀ l ∈ kept, isBlankLine l = true := by
    refine ⟨⟨hkept.1, fun _ => rfl⟩, ?_⟩
    rw [remains_iff.1 hkept]
    split
    · simp
    · exact hrun
  induction h with
  | last hrun hkept => exact .last (hremains hkept hrun).2 (hremains hkept hrun).1
  | line hrun hl hkept _ ih => exact .line (hremains hkept hrun).2 hl (hremains hkept hrun).1 ih

/-- The lines that are left are some of the lines. -/
theorem Tightens.sublist {before : Option Text} {ls ks : List Text} (h : Tightens before ls ks) : ks.Sublist ls := by
  have hremains {before after : Option Text} {run kept : List Text} (hkept : Remains before after run kept) :
      kept.Sublist run := by
    rw [remains_iff.1 hkept]
    split
    · exact List.nil_sublist run
    · exact List.Sublist.refl run
  induction h with
  | last _ hkept => exact hremains hkept
  | line _ _ hkept _ ih => exact (hremains hkept).append (ih.cons_cons _)

/-- The last line that is left is not empty, if the last line is not. -/
theorem Tightens.last_ne_nil {before : Option Text} {ls ks : List Text} (h : Tightens before ls ks)
    (hls : ∀ l ∈ ls.getLast?, l ≠ []) : ∀ l ∈ ks.getLast?, l ≠ [] := by
  induction h with
  | last _ hkept =>
    rw [remains_iff.1 hkept]
    split
    · simp
    · exact hls
  | @line before run kept ls ks l _ hl _ _ ih =>
    rw [List.getLast?_append_of_ne_nil _ (by simp)] at hls ⊢
    cases ks with
    | nil =>
      intro k hk
      obtain rfl : l = k := by simpa using hk
      rintro rfl
      cases hl
    | cons k ks =>
      rw [List.getLast?_cons_cons]
      refine ih fun m hm => hls m ?_
      cases ls with
      | nil => cases hm
      | cons j js => rwa [List.getLast?_cons_cons]

/-- Something is left of a text. -/
theorem Tightens.eq_nil {ls ks : List Text} (h : Tightens none ls ks) (hks : ks = []) : ls = [] := by
  generalize hbefore : none = before at h
  cases h with
  | last _ hkept =>
    rw [remains_iff.1 hkept, ← hbefore] at hks
    simpa using hks
  | line => simp at hks

/-! ## Texts -/

section
variable (t : Text)

theorem tightens_lines : Tightens none (lines t) (spaceLines false [] (lines t)) := tightens_iff.2 rfl

theorem not_mem_spaceLines : ∀ l ∈ spaceLines false [] (lines t), '\n' ∉ l ∧ '\r' ∉ l :=
  fun _ hl => not_mem_lines ((tightens_lines t).sublist.subset hl)

/-- **The lines of the tightened text** are those that the rule leaves. -/
theorem lines_tightenLabels_eq : lines (tightenLabels t) = spaceLines false [] (lines t) := by
  rw [tightenLabels]
  cases hend : endsWithNewline t with
  | true => exact lines_unlines (not_mem_spaceLines t)
  | false => exact lines_unlines_open (not_mem_spaceLines t) ((tightens_lines t).last_ne_nil (ne_nil_of_getLast?_lines hend))

theorem carriageReturn_not_mem_tightenLabels : '\r' ∉ tightenLabels t :=
  not_mem_unlines (by decide) (fun l hl => (not_mem_spaceLines t l hl).2) _

theorem endsWithNewline_tightenLabels : endsWithNewline (tightenLabels t) = endsWithNewline t := by
  by_cases hnil : spaceLines false [] (lines t) = []
  · obtain rfl : t = [] := lines_eq_nil_iff.1 ((tightens_lines t).eq_nil hnil)
    rfl
  · exact endsWithNewline_unlines_of_lines hnil (carriageReturn_not_mem_tightenLabels t) (lines_tightenLabels_eq t)

/-- **Of the lines of a text exactly the runs of blank lines next to a label go.** The result has `\n` for all its
    terminators and is ended if the text is, and tightening it changes nothing. -/
theorem tightens_tightenLabels :
    (∀ ks, Tightens none (lines t) ks ↔ ks = lines (tightenLabels t))
      ∧ '\r' ∉ tightenLabels t
      ∧ endsWithNewline (tightenLabels t) = endsWithNewline t
      ∧ tightenLabels (tightenLabels t) = tightenLabels t := by
  refine ⟨fun ks => ?_, carriageReturn_not_mem_tightenLabels t, endsWithNewline_tightenLabels t, ?_⟩
  · rw [lines_tightenLabels_eq]
    exact tightens_iff
  · have hagain : spaceLines false [] (spaceLines false [] (lines t)) = spaceLines false [] (lines t) :=
      (tightens_lines t).again.eq.symm
    calc tightenLabels (tightenLabels t)
        = unlines (spaceLines false [] (lines (tightenLabels t))) (endsWithNewline (tightenLabels t)) := rfl
      _ = unlines (spaceLines false [] (lines t)) (endsWithNewline t) := by
          rw [lines_tightenLabels_eq, hagain, endsWithNewline_tightenLabels]
      _ = tightenLabels t := rfl

end

/-- A run next to two labels, one between other lines, and one at the end that is not ended. -/
example : tightenLabels (text "case 1:\r\n\r\n \r\ndefault :\nx;\n\ny;\rcase 2:\n \n  ") =
    text "case 1:\ndefault :\nx;\n\ny;\ncase 2:" := by decide +kernel

end JavaMend.Java
