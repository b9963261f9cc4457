import JavaMend.Proofs.Diff.Applied
import JavaMend.Proofs.Diff.Parsed
import JavaMend.Proofs.Diff.Replay

/-!
# `Proofs.Diff.Inertness` — a hunk that fails leaves no trace

A hunk that is not found leaves the document, and by how much it has grown, as they are (`applyHunk_of_failed`). So the
hunks behind it meet what they would meet without it, and a run of all hunks is a run of those that are found
(`applyHunks_matching`): with the same outcomes, in the same order, and the same document in the end.

For a patch of a source this means that the patch restricted to the hunks that are found leads to the same text and
reports the same of them (`inert_of_source`). What lenient options keep of a patch is what strict ones keep of the
restricted patch.

## Contents
- **Hunks.** `matching`; `applyHunk_of_failed`, `applyHunks_matching`.
- **Options.** `applyHunks_lenient`, `probe_lenient`: being lenient or strict does not change what is found.
- **Patches.** `Patch.restricted`, `Report.foundHunks`; `probe_restricted`.
- **Inertness.** `Inert`, `inert_of_source`.
-/

namespace JavaMend.Diff

open JavaMend Text

/-! ## Hunks -/

/-- The hunks whose outcomes are not failures. -/
def matching (hs : List Hunk) (outs : List Outcome) : List Hunk :=
  ((hs.zip outs).filter fun x => x.2.status != .failed).map Prod.fst

section
variable {h : Hunk} {hs : List Hunk} {out : Outcome} {outs : List Outcome}

theorem matching_cons_of_failed (hout : out.status = .failed) :
    matching (h :: hs) (out :: outs) = matching hs outs := by
  simp [matching, hout]

theorem matching_cons_of_ok (hout : out.status ≠ .failed) :
    matching (h :: hs) (out :: outs) = h :: matching hs outs := by
  simp [matching, hout]

end

section
variable {o : Options}

/-- **A hunk that fails is inert**: what it leaves is what it met. -/
theorem applyHunk_of_failed {h : Hunk} {st : Progress} (hfailed : (applyHunk o h st).1.status = .failed) :
    (applyHunk o h st).2 = st := by
  obtain ⟨a, -, ha⟩ | ⟨-, hnone⟩ := applyHunk_cases o h st
  · rw [ha, Outcome.status_eq_failed_iff] at hfailed
    cases hfailed
  · rw [hnone]

/-- **A run of all hunks is a run of those that are found**: these meet the same documents, so they end the same, and what
    remains is the same. -/
theorem applyHunks_matching (hs : List Hunk) (st : Progress) :
    applyHunks o (matching hs (applyHunks o hs st).1) st
      = ((applyHunks o hs st).1.filter fun out => out.status != .failed, (applyHunks o hs st).2) := by
  induction hs generalizing st with
  | nil => rfl
  | cons h hs ih =>
    rw [applyHunks]
    by_cases hfailed : (applyHunk o h st).1.status = .failed
    · -- The rest of the run starts where this hunk did.
      rw [applyHunk_of_failed hfailed, matching_cons_of_failed hfailed, ih st]
      simp [hfailed]
    · rw [matching_cons_of_ok hfailed, applyHunks, ih (applyHunk o h st).2]
      simp [hfailed]

end

/-! ## Options -/

/-- Whether the options are lenient does not matter to a run of hunks. -/
theorem applyHunks_lenient (o : Options) (lenient : Bool) (hs : List Hunk) (st : Progress) :
    applyHunks { o with lenient := lenient } hs st = applyHunks o hs st := by
  induction hs generalizing st with
  | nil => rfl
  | cons h hs ih =>
    have hstep : applyHunk { o with lenient := lenient } h st = applyHunk o h st := rfl
    simp only [applyHunks, hstep, ih]

/-- Whether the options are lenient does not matter to what is found when a patch is tried. -/
theorem probe_lenient (o : Options) (lenient : Bool) (p : Patch) (s : Store) :
    probe { o with lenient := lenient } p s = probe o p s := by
  simp only [probe, applyHunks_lenient]

/-! ## Patches -/

/-- The patch with those of its hunks that did not fail, as a report tells. -/
def Patch.restricted (p : Patch) (r : Report) : Patch := ⟨p.target, matching p.hunks r.outcomes⟩

/-- What a report tells of the hunks that did not fail, each with its number. -/
def Report.foundHunks (r : Report) : List (Nat × Outcome) := r.numbered.filter fun h => h.2.status != .failed

theorem numbered_snd (r : Report) : r.numbered.map Prod.snd = r.outcomes := by
  have hsnd : Prod.snd ∘ (fun x : Outcome × Nat => (x.2 + 1, x.1)) = Prod.fst := rfl
  rw [Report.numbered, List.map_map, hsnd, List.zipIdx_map_fst]

theorem foundHunks_snd (r : Report) :
    r.foundHunks.map Prod.snd = r.outcomes.filter fun out => out.status != .failed := by
  rw [Report.foundHunks, ← numbered_snd r, List.filter_map]
  rfl

section
variable {o : Options} {p : Patch} {s : Store} {doc : Document}

/-- **A patch restricted to the hunks that are found** is reported with their outcomes, and leads to the same text. -/
theorem probe_restricted (hdoc : targetOf p s = .ok doc)
    (hdoc' : targetOf (p.restricted (probe o p s).1) s = .ok doc) :
    probe o (p.restricted (probe o p s).1) s
      = (⟨p.target, (probe o p s).1.outcomes.filter fun out => out.status != .failed, none⟩, (probe o p s).2) := by
  have houtcomes : (probe o p s).1.outcomes = (applyHunks o p.hunks ⟨doc.lines, 0⟩).1 := by simp only [probe, hdoc]
  have hrun := applyHunks_matching (o := o) p.hunks ⟨doc.lines, 0⟩
  rw [← houtcomes] at hrun
  -- A hunk that did not fail is among the others exactly if there is one.
  have hany : ((probe o p s).1.outcomes.filter fun out => out.status != .failed).any (fun out => out.line?.isSome)
      = (probe o p s).1.outcomes.any fun out => out.line?.isSome := by
    simp only [List.any_filter, line?_isSome, Bool.and_self]
  have htext : (probe o p s).2 = if (probe o p s).1.outcomes.any fun out => out.line?.isSome then
      some (Document.toText ⟨(applyHunks o p.hunks ⟨doc.lines, 0⟩).2.doc, doc.terminated⟩) else none := by
    simp only [probe, hdoc]
  rw [htext, probe, hdoc']
  simp only [Patch.restricted, hrun, hany]

end

/-! ## Inertness -/

/-- **The hunks that fail are inert**: the patch restricted to the others leads to the same text, if there is one, none of
    its hunks fails, and what is reported of them is what was reported before, with new numbers. So a lenient commit of
    the patch writes what a strict commit of the restricted one writes. -/
structure Inert (o : Options) (p : Patch) (s : Store) : Prop where
  text : (probe o (p.restricted (probe o p s).1) s).2 = (probe o p s).2
  /-- There is no text if all hunks fail. -/
  unmatched : (∀ out ∈ (probe o p s).1.outcomes, out.status = .failed) → (probe o p s).2 = none
  found : ∀ out ∈ (probe o (p.restricted (probe o p s).1) s).1.outcomes, out.status ≠ .failed
  status : (probe o (p.restricted (probe o p s).1) s).1.status ≠ .failed
  reports : (probe o (p.restricted (probe o p s).1) s).1.numbered.map Prod.snd = (probe o p s).1.foundHunks.map Prod.snd
  numbers : (probe o (p.restricted (probe o p s).1) s).1.numbered.map Prod.fst
    = List.range' 1 (probe o p s).1.foundHunks.length
  commit : (apply { o with lenient := true } p s).2
    = (apply { o with lenient := false } (p.restricted (probe o p s).1) s).2

/-- **Hunks of a patch of a source that fail are inert**, whatever the options. -/
theorem inert_of_source {o : Options} {p : Patch} {s : Store} {t : Text}
    (hfind : (s.find? p.target).map (·.content) = some (.source t)) : Inert o p s := by
  obtain ⟨⟨k, content⟩, hk, rfl⟩ := Option.map_eq_some_iff.1 hfind
  have hdoc : targetOf p s = .ok (.ofText t) := by simp only [targetOf, hk]
  have hdoc' : targetOf (p.restricted (probe o p s).1) s = .ok (.ofText t) := by
    simp only [targetOf, Patch.restricted, hk]
  have hprobe := probe_restricted hdoc hdoc'
  have hfound : ∀ out ∈ (probe o (p.restricted (probe o p s).1) s).1.outcomes, out.status ≠ .failed := by
    intro out hout
    rw [hprobe] at hout
    simpa using (List.mem_filter.1 hout).2
  have hstatus : (probe o (p.restricted (probe o p s).1) s).1.status ≠ .failed := by
    rw [ne_eq, Report.status_eq_failed_iff]
    rintro (hrefusal | ⟨out, hout, hfailed⟩)
    · rw [hprobe] at hrefusal
      cases hrefusal
    · exact hfound out hout hfailed
  refine ⟨by rw [hprobe], fun hfailed => ?_, hfound, hstatus, ?_, ?_, ?_⟩
  · rw [← Option.not_isSome_iff_eq_none, isSome_probe_iff]
    rintro ⟨out, hout, hline⟩
    rw [line?_isSome, hfailed out hout] at hline
    exact absurd hline (by decide)
  · rw [numbered_snd, foundHunks_snd, hprobe]
  · have hlength : (probe o p s).1.foundHunks.length = (probe o (p.restricted (probe o p s).1) s).1.outcomes.length := by
      rw [← List.length_map Prod.snd, foundHunks_snd, hprobe]
    rw [numbered_fst, hlength]
  · -- Both commits keep what they find, the one since it is lenient and the other since nothing fails.
    have hlenient := apply_kept { o with lenient := true } (p := p) (s := s) (.inr rfl)
    have hstrict := apply_kept { o with lenient := false } (p := p.restricted (probe o p s).1) (s := s)
      (.inl (by rwa [probe_lenient o false]))
    rw [hlenient, hstrict, probe_lenient o true, probe_lenient o false, hprobe]
    rfl

/-- The first hunk adds a line, the second one is not found, and the third is found where the first has moved it. -/
theorem inert_of_source_partly :
    ∃ (ps : List Patch) (p : Patch) (s : Store),
      parseAll (text "--- a/F\n+++ b/F\n@@ -1,1 +1,2 @@\n a\n+a1\n@@ -2,1 +3,1 @@\n-x\n+y\n@@ -3,1 +4,1 @@\n-d\n+e\n") 1
          = .ok ps ∧ p ∈ ps
        ∧ (s.find? p.target).map (·.content) = some (.source (text "a\nb\n d"))
        ∧ (probe ⟨.trimmed, 3, false⟩ p s).1.outcomes.map Outcome.status = [.success, .failed, .fuzzed]
        ∧ Inert ⟨.trimmed, 3, false⟩ p s := by
  let key : Key := ⟨text "F", by decide, by decide⟩
  let first : Hunk := ⟨⟨1, 1⟩, ⟨1, 2⟩, [⟨.context, text "a"⟩, ⟨.add, text "a1"⟩]⟩
  let second : Hunk := ⟨⟨2, 1⟩, ⟨3, 1⟩, [⟨.remove, text "x"⟩, ⟨.add, text "y"⟩]⟩
  let third : Hunk := ⟨⟨3, 1⟩, ⟨4, 1⟩, [⟨.remove, text "d"⟩, ⟨.add, text "e"⟩]⟩
  let store := Store.empty.set key (.source (text "a\nb\n d"))
  have hps : parseAll (text "--- a/F\n+++ b/F\n@@ -1,1 +1,2 @@\n a\n+a1\n@@ -2,1 +3,1 @@\n-x\n+y\n@@ -3,1 +4,1 @@\n-d\n+e\n") 1
      = .ok [⟨key, [first, second, third]⟩] := by decide +kernel
  have hfind : (store.find? key).map (·.content) = some (.source (text "a\nb\n d")) := by decide
  exact ⟨_, _, store, hps, List.mem_cons_self, hfind, by decide +kernel, inert_of_source hfind⟩

end JavaMend.Diff
