import JavaMend.Proofs.Build.PatchRuns
import Mathlib.Control.Monad.Basic

/-!
# `Proofs.Build.Trials` — a trial run predicts the run that counts

A trial goes on after failures and lists them, on a copy of the store; a run that counts ends at the first failure. Up
to that failure both do the same, since a trial keeps in its copy what a run would keep in the store. So one ends
without failures exactly if the other does, with the same reports (`trial_predicts`).

Of a file the trial tells even more: with lenient options a run gives the reports of the trial, and otherwise it ends
with the first failed one.

## Contents
- **Runs without failures.** `hasFailures_eq_false_iff`.
- **Files.** `trial_sections`, `lenient_sections`, `strict_sections`.
- **Groups.** `applyGroups_agree`: step by step the runs agree, or the trial notes a group without result.
- **Trials.** `applySource_agree`, `trial_predicts`.
-/

namespace JavaMend.Build

open JavaMend Text Diff

/-! ## Runs without failures -/

theorem hasFailures_eq_false_iff (r : PatchRun) :
    r.hasFailures = false ↔ r.unresolved = [] ∧ ∀ report ∈ r.reports, report.status ≠ .failed := by
  simp [PatchRun.hasFailures, PatchRun.count]

section
variable (o : Options) (strip : Nat) (ps : List Patch) (run : PatchRun) (s : Store)

/-! ## Files -/

/-- A trial of sections gives the reports of all of them. -/
theorem trial_sections :
    (applySections ⟨o, true⟩ ps run s).1 = .ok { run with reports := run.reports ++ (applyAll o ps s).1 } := by
  rw [applySections_eq, List.find?_eq_none.2 fun r _ => by simp [not_stopsAt_collect]]

/-- With lenient options a run of sections gives the reports of all of them. -/
theorem lenient_sections (h : o.lenient = true) :
    (applySections ⟨o, false⟩ ps run s).1 = .ok { run with reports := run.reports ++ (applyAll o ps s).1 } := by
  rw [applySections_eq, List.find?_eq_none.2 fun r _ => by simp [not_stopsAt_lenient h]]

/-- With strict options a run of sections ends with the first failed report. -/
theorem strict_sections (h : o.lenient = false) :
    (applySections ⟨o, false⟩ ps run s).1 =
      match (applyAll o ps s).1.find? fun r => r.status == .failed with
      | some r => .error (.failed r)
      | none   => .ok { run with reports := run.reports ++ (applyAll o ps s).1 } := by
  have heq := applySections_eq ⟨o, false⟩ ps run s
  rwa [stopsAt_strict h] at heq

/-- Trial and run of sections agree on results without failures. -/
theorem applySections_agree {r : PatchRun} (hr : r.hasFailures = false) :
    (applySections ⟨o, true⟩ ps run s).1 = .ok r ↔ (applySections ⟨o, false⟩ ps run s).1 = .ok r := by
  rw [trial_sections]
  cases hl : o.lenient with
  | true => rw [lenient_sections o ps run s hl]
  | false =>
    rw [strict_sections o ps run s hl]
    split
    · rename_i report hfind
      -- A failed report among those of the trial is among those of its result.
      have hfailed : report.status = .failed := by simpa using List.find?_some hfind
      refine ⟨fun h => ?_, fun h => by cases h⟩
      cases h
      exact absurd hfailed (((hasFailures_eq_false_iff _).1 hr).2 report
        (List.mem_append_right _ (List.mem_of_find?_eq_some hfind)))
    · exact Iff.rfl

/-! ## Groups -/

/-- **Trial and run of groups agree on results without failures.** The runs part only where a group has no result, which
    the trial never forgets. -/
theorem applyGroups_agree (gs : List (List PatchFile)) {r : PatchRun} (hr : r.hasFailures = false) :
    (applyGroups ⟨o, true⟩ strip gs run s).1 = .ok r ↔ (applyGroups ⟨o, false⟩ strip gs run s).1 = .ok r := by
  induction gs generalizing run s with
  | nil => rfl
  | cons g gs ih =>
    simp only [applyGroups]
    cases g.mapM (PatchFile.candidate strip) with
    | error fault => rfl
    | ok cs =>
      simp only
      cases hres : resolve o cs s with
      | ok res =>
        obtain ⟨res, s'⟩ := res
        obtain ⟨c, -, -, hstatus⟩ := resolve_ok hres
        simp only [record_eq, not_stopsAt hstatus, Bool.false_eq_true, if_false]
        exact ih _ s'
      | error choice =>
        simp only [if_true, Bool.false_eq_true, if_false]
        refine ⟨fun h => ?_, fun h => by cases h⟩
        have hnone := ((hasFailures_eq_false_iff r).1 hr).1
        have hkept := unresolved_of_applyGroups h
        rw [hnone] at hkept
        exact absurd (List.prefix_nil.1 hkept) (by simp)

end

/-! ## Trials -/

/-- Trial and run of a source agree on results without failures. -/
theorem applySource_agree (o : Options) (strip : Nat) (source : PatchSource) (s : Store) {r : PatchRun}
    (hr : r.hasFailures = false) :
    (applySource ⟨o, true⟩ strip source s).1 = .ok r ↔ (applySource ⟨o, false⟩ strip source s).1 = .ok r := by
  cases source with
  | nothing path => rfl
  | single file =>
    simp only [applySource]
    cases file.text with
    | error fault => rfl
    | ok t =>
      simp only
      cases parseAll t strip with
      | error error => rfl
      | ok ps => exact applySections_agree o ps .empty s hr
  | folder gs => exact applyGroups_agree o strip .empty s gs hr

/-- **A trial predicts the run.** It leaves the store as it is. It ends without failures exactly if the run does, and
    then the two are the same. For a file that is a diff the trial always ends well; a lenient run is the same, and a
    strict one fails with the first failed report of the trial, if there is one. -/
theorem trial_predicts (o : Options) (strip : Nat) (source : PatchSource) (s : Store) :
    (patchStore o strip source true s).2 = s
      ∧ (∀ run, (patchStore o strip source true s).1 = .ok run ∧ run.hasFailures = false
          ↔ (patchStore o strip source false s).1 = .ok run ∧ run.hasFailures = false)
      ∧ ∀ file t ps, source = .single file → file.text = .ok t → parseAll t strip = .ok ps →
          ∃ run, (patchStore o strip source true s).1 = .ok run
            ∧ (o.lenient = true → (patchStore o strip source false s).1 = .ok run)
            ∧ (o.lenient = false → ∀ r, run.reports.find? (fun r => r.status == .failed) = some r →
                (patchStore o strip source false s).1 = .error (.failed r)) := by
  refine ⟨rfl, fun run => ?_, fun file t ps hsource ht hps => ?_⟩
  · exact and_congr_left fun hr => applySource_agree o strip source s hr
  · subst hsource
    have hsections : ∀ collect,
        applySource ⟨o, collect⟩ strip (.single file) s = applySections ⟨o, collect⟩ ps .empty s := by
      intro collect
      simp only [applySource, ht, hps]
    refine ⟨⟨(applyAll o ps s).1, []⟩, ?_, fun hl => ?_, fun hl r hr => ?_⟩
    · simp only [patchStore, hsections, if_true, trial_sections, PatchRun.empty, List.nil_append]
    · simp only [patchStore, hsections, Bool.false_eq_true, if_false, lenient_sections o ps .empty s hl]
      rfl
    · simp only [patchStore, hsections, Bool.false_eq_true, if_false, strict_sections o ps .empty s hl, hr]

/-- Two sections, of which the first does not fit: the trial goes on to the second, and the strict run ends with the
    report of the first. -/
theorem trial_predicts_failure :
    ∃ (file : PatchFile) (t : Text) (ps : List Patch) (s : Store) (run : PatchRun) (r : Report),
      t = text "--- a/F\n+++ b/F\n@@ -1,1 +1,1 @@\n-x\n+y\n--- a/G\n+++ b/G\n@@ -0,0 +1,1 @@\n+z\n"
        ∧ file.text = .ok t ∧ parseAll t 1 = .ok ps
        ∧ (patchStore ⟨.exact, 0, false⟩ 1 (.single file) true s).1 = .ok run
        ∧ run.reports.map Report.status = [.failed, .success]
        ∧ run.reports.find? (fun r => r.status == .failed) = some r
        ∧ (patchStore ⟨.exact, 0, false⟩ 1 (.single file) false s).1 = .error (.failed r) := by
  let t : Text := text "--- a/F\n+++ b/F\n@@ -1,1 +1,1 @@\n-x\n+y\n--- a/G\n+++ b/G\n@@ -0,0 +1,1 @@\n+z\n"
  let file : PatchFile := ⟨text "p", text "p", utf8 t⟩
  let f : Key := ⟨text "F", by decide, by decide⟩
  let g : Key := ⟨text "G", by decide, by decide⟩
  let ps : List Patch :=
    [⟨f, [⟨⟨1, 1⟩, ⟨1, 1⟩, [⟨.remove, text "x"⟩, ⟨.add, text "y"⟩]⟩]⟩, ⟨g, [⟨⟨0, 0⟩, ⟨1, 1⟩, [⟨.add, text "z"⟩]⟩]⟩]
  let s : Store := Store.empty.set f (.source (text "a\n"))
  let first : Report := ⟨f, [.notFound .exact 0 0], none⟩
  let second : Report := ⟨g, [.applied ⟨0, 0, false⟩], none⟩
  have ht : file.text = .ok t := by simp only [PatchFile.text, file, ofUtf8?_utf8]
  have hps : parseAll t 1 = .ok ps := by decide +kernel
  have hreports : (applyAll ⟨.exact, 0, false⟩ ps s).1 = [first, second] := by decide +kernel
  obtain ⟨run, hrun, -, hstrict⟩ := (trial_predicts ⟨.exact, 0, false⟩ 1 (.single file) s).2.2 file t ps rfl ht hps
  have hlisted : run.reports = [first, second] := by
    simp only [patchStore, applySource, ht, hps, if_true, trial_sections, hreports, Except.ok.injEq] at hrun
    rw [← hrun]
    rfl
  have hfirst : run.reports.find? (fun r => r.status == .failed) = some first := by
    rw [hlisted]
    decide
  exact ⟨file, t, ps, s, run, first, rfl, ht, hps, hrun, by rw [hlisted]; decide, hfirst, hstrict rfl first hfirst⟩

end JavaMend.Build
