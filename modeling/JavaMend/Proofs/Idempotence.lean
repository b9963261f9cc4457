import JavaMend.Normalizer
import JavaMend.Proofs.Java.MarkedConstants
import JavaMend.Proofs.Java.MarkedEdits

/-!
# `Proofs.Idempotence` — normalising a normal text

Normalising is meant to settle a text in one run. It does not always: what a late edit does can give an early one work
again. When it does settle is said by its result: comments, constants and renames use up marks that no other edit gives
back, so none of these edits may find anything to do in a text that stays. The edits of lines in between can undo one
another, so of them only the outcome counts.

## Contents
- **Normal forms.** `Normalizer.standard`, `Normalizer.result`, `Settles`.
- **A text that does not settle.** `not_settles_siblingImport`.
- **Texts at rest.** `AtRest`; `result_of_atRest`, `atRest_of_result_eq`; `settles_iff_atRest`.
-/

namespace JavaMend

open Text Java

/-! ## Normal forms -/

namespace Normalizer

/-- The tables in effect without configuration, and no formatter. -/
def standard : Normalizer := ⟨builtinConstants, builtinRenames, Formatter.keep⟩

/-- What normalising without a formatter makes of a text. -/
def result (n : Normalizer) (t : Text) : Text := n.finish (n.prepare t)

end Normalizer

/-- Normalising the normal text of a text gives the normal text again. -/
def Settles (t : Text) : Prop :=
  ∀ d, ∃ normal, (Normalizer.standard.normalize t).on d = (.ok normal, d)
    ∧ (Normalizer.standard.normalize normal).on d = (.ok normal, d)

theorem settles_iff (t : Text) :
    Settles t ↔ Normalizer.standard.result (Normalizer.standard.result t) = Normalizer.standard.result t := by
  have hon (t : Text) (d : Disk) : (Normalizer.standard.normalize t).on d = (.ok (Normalizer.standard.result t), d) :=
    Normalizer.standard.normalize_keep rfl t d
  unfold Settles
  simp only [hon, Prod.mk.injEq, and_true, Except.ok.injEq, exists_eq_left']
  exact ⟨fun h => h .empty, fun h _ => h⟩

/-! ## A text that does not settle -/

/-- The import of a class of the text's own package says nothing and is dropped; only then is its simple name free for
    the qualified one. -/
theorem not_settles_siblingImport :
    ¬ Settles
      (text "package p;\n\nimport p.Foo;\n\nclass A \x7b\n   java.util.Foo f;\n   Foo g;\n\x7d\n") := by
  rw [settles_iff]
  decide +kernel

/-! ## Texts at rest -/

/-- There is nothing left to do in a text: no comment to remove, no integer to name and no class to rename, and the
    edits of imports and lines give the text back. -/
structure AtRest (t : Text) : Prop where
  comments : ∀ s ∈ segments t, isSynthetic s = false
  constants : nameConstants builtinConstants (tidy (fixImports t)) = tidy (fixImports t)
  renames : mapCode (renameCode builtinRenames) t = t
  lines : tightenLabels (tidy (fixImports t)) = t

variable {m : Mark}

/-- What is done to a text without comments to remove. -/
def afterComments (t : Text) : Text :=
  renameClasses builtinRenames (tightenLabels (nameConstants builtinConstants (tidy (fixImports t))))

theorem result_eq (t : Text) : Normalizer.standard.result t = afterComments (stripSynthetic (toLF t)) := rfl

theorem tally_nameConstants_le (t : Text) : tally m none (nameConstants builtinConstants t) ≤ tally m none t := by
  rcases tally_nameConstants t with hsame | hle
  · rw [hsame]
  · exact Nat.le_of_add_right_le hle

theorem tally_renameClasses_le (t : Text) : tally m none (renameClasses builtinRenames t) ≤ tally m none t := by
  rcases tally_renameClasses t with hsame | hle
  · rw [renameClasses]
    simp [hsame]
  · exact Nat.le_of_add_right_le hle

theorem tally_stripSynthetic_le (hm : m.IsLoose) (t : Text) : tally m none (stripSynthetic t) ≤ tally m none t := by
  rcases tally_stripSynthetic hm t with hnone | hle
  · rw [stripSynthetic_of_none hnone]
  · exact Nat.le_of_add_right_le hle

/-- Before the integers are named no mark is added. -/
theorem tally_lines_le (t : Text) : tally m none (tidy (fixImports t)) ≤ tally m none t :=
  Nat.le_trans (tally_tidy_le _) (tally_fixImports_le t)

theorem tally_afterComments_le (t : Text) : tally m none (afterComments t) ≤ tally m none t :=
  calc tally m none (afterComments t)
      ≤ tally m none (tightenLabels (nameConstants builtinConstants (tidy (fixImports t)))) := tally_renameClasses_le _
    _ ≤ tally m none (nameConstants builtinConstants (tidy (fixImports t))) := tally_tightenLabels_le _
    _ ≤ tally m none (tidy (fixImports t)) := tally_nameConstants_le _
    _ ≤ tally m none t := tally_lines_le t

/-- A normal text has no carriage return. -/
theorem tally_carriageReturn_result (t : Text) : tally .carriageReturn none (Normalizer.standard.result t) = 0 := by
  have hafter := tally_afterComments_le (m := .carriageReturn) (stripSynthetic (toLF t))
  have hstrip := tally_stripSynthetic_le Mark.isLoose_carriageReturn (toLF t)
  have hzero := tally_toLF t
  rw [result_eq]
  omega

/-- A text at rest is its own normal text. -/
theorem result_of_atRest {t : Text} (hreturn : tally .carriageReturn none t = 0) (h : AtRest t) :
    Normalizer.standard.result t = t := by
  rw [result_eq, toLF_of_tally_eq_zero hreturn, stripSynthetic_of_none h.comments, afterComments, h.constants, h.lines,
    renameClasses]
  simp [h.renames]

/-- **A text that is its own normal text is at rest**: an edit that found something to do would have used up a mark,
    and none of the others could have put it back. -/
theorem atRest_of_result_eq {t : Text} (hreturn : tally .carriageReturn none t = 0)
    (h : Normalizer.standard.result t = t) : AtRest t := by
  rw [result_eq, toLF_of_tally_eq_zero hreturn] at h
  have hcomments : ∀ s ∈ segments t, isSynthetic s = false := by
    refine (tally_stripSynthetic Mark.isLoose_colon t).resolve_right fun hless => ?_
    have hafter := tally_afterComments_le (m := .colon) (stripSynthetic t)
    rw [h] at hafter
    rw [commentPrice] at hless
    omega
  rw [stripSynthetic_of_none hcomments] at h
  have hconstants : nameConstants builtinConstants (tidy (fixImports t)) = tidy (fixImports t) := by
    refine (tally_nameConstants (m := .number) _).resolve_right fun hless => ?_
    have hbefore := tally_lines_le (m := .number) t
    have hlabels := tally_tightenLabels_le (m := .number) (nameConstants builtinConstants (tidy (fixImports t)))
    have hrenames := tally_renameClasses_le (m := .number)
      (tightenLabels (nameConstants builtinConstants (tidy (fixImports t))))
    rw [show renameClasses builtinRenames _ = t from h] at hrenames
    rw [namePrice] at hless
    omega
  rw [afterComments, hconstants] at h
  have hrenames : mapCode (renameCode builtinRenames) (tightenLabels (tidy (fixImports t))) =
      tightenLabels (tidy (fixImports t)) := by
    refine (tally_renameClasses (m := .source) _).resolve_right fun hless => ?_
    have hbefore := tally_lines_le (m := .source) t
    have hlabels := tally_tightenLabels_le (m := .source) (tidy (fixImports t))
    rw [h, renamePrice] at hless
    omega
  have hlines : tightenLabels (tidy (fixImports t)) = t := by
    rw [renameClasses, hrenames] at h
    simpa using h
  rw [hlines] at hrenames
  exact ⟨hcomments, hconstants, hrenames, hlines⟩

/-- **A text settles exactly if its normal text is at rest.** -/
theorem settles_iff_atRest (t : Text) : Settles t ↔ AtRest (Normalizer.standard.result t) := by
  rw [settles_iff]
  exact ⟨atRest_of_result_eq (tally_carriageReturn_result t), result_of_atRest (tally_carriageReturn_result t)⟩

/-- The edits of lines can undo one another: repair parts the imports from a body that opens with `default`, and the
    line is taken for a label and moved up again. -/
example :
    let t := text "import a.B;\ndefault interface C \x7b\n\x7d\n"
    fixImports t ≠ t ∧ tightenLabels (tidy (fixImports t)) = t := by
  decide +kernel

end JavaMend
