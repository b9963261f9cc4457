import JavaMend.Diff.Engine
import JavaMend.Proofs.Diff.Searching

/-!
# `Proofs.Diff.Replay` — a report explains the text that results

A report names, for each hunk, the line where its before image was found, the level and the fuzz. That is enough to
go through the hunks again without a search: `replay` puts the after images in the named lines. What the report says of
each hunk is right in the document that the replay has reached by then (`truthful_applyHunks`), and the replay ends with
the text that the patch yields (`replay_applyHunks`).

## Contents
- **Replaying.** `Progress.replace`, `replay`; `applyHunk_cases`, `replay_applyHunks`, `getElem?_applyHunks`.
- **One hunk.** `Found`, `Lost`, `Truthful`; `truthful_applyHunk`, `truthful_applyHunks`.
- **The patch.** `Report.met`, `TellsTruth`, `tellsTruth_of_targetOf`, `probe_truthful`.
-/

namespace JavaMend.Diff

open JavaMend Text

/-! ## Replaying -/

/-- Replace the before image of a hunk, after `pos` lines, by its after image. -/
def Progress.replace (st : Progress) (h : Hunk) (pos : Nat) : Progress :=
  ⟨splice st.doc pos h.before.length h.after, st.delta + h.after.length - h.before.length⟩

/-- Go through hunks as a report tells: one with a line is applied there, one without is left out. -/
def replay : List Hunk → List Outcome → Progress → Progress
  | h :: hs, out :: outs, st =>
    match out.line? with
    | some line => replay hs outs (st.replace h (line - 1))
    | none      => replay hs outs st
  | _, _, st => st

section
variable {o : Options}

/-- **What applying a hunk can do**: it finds the before image and replaces it there, or does not find it. -/
theorem applyHunk_cases (o : Options) (h : Hunk) (st : Progress) :
    (∃ a, locate o st.doc h.before (expectedAt h st.delta st.doc.length) = some a
        ∧ applyHunk o h st = (.applied a, st.replace h a.pos))
      ∨ (locate o st.doc h.before (expectedAt h st.delta st.doc.length) = none
        ∧ applyHunk o h st = (.notFound o.maxLevel o.window (expectedAt h st.delta st.doc.length), st)) := by
  cases hlocate : locate o st.doc h.before (expectedAt h st.delta st.doc.length) with
  | some a => exact .inl ⟨a, rfl, by simp only [applyHunk, hlocate, Progress.replace]⟩
  | none => exact .inr ⟨rfl, by simp only [applyHunk, hlocate]⟩

/-- One hunk leads to where its outcome tells. -/
theorem applyHunk_replay (h : Hunk) (hs : List Hunk) (outs : List Outcome) (st : Progress) :
    replay (h :: hs) ((applyHunk o h st).1 :: outs) st = replay hs outs (applyHunk o h st).2 := by
  obtain ⟨a, -, ha⟩ | ⟨-, hnone⟩ := applyHunk_cases o h st
  · rw [ha]
    rfl
  · rw [hnone]
    rfl

/-- **Replaying the outcomes of hunks leads to where applying them does.** -/
theorem replay_applyHunks (hs : List Hunk) (st : Progress) :
    replay hs (applyHunks o hs st).1 st = (applyHunks o hs st).2 := by
  induction hs generalizing st with
  | nil => rfl
  | cons h hs ih =>
    rw [applyHunks, applyHunk_replay]
    exact ih _

/-- The first outcomes are those of the first hunks. -/
theorem take_applyHunks (hs : List Hunk) (st : Progress) (i : Nat) :
    (applyHunks o hs st).1.take i = (applyHunks o (hs.take i) st).1 := by
  induction hs generalizing st i with
  | nil => simp [applyHunks]
  | cons h hs ih =>
    cases i with
    | zero => rfl
    | succ i => simp only [applyHunks, List.take_succ_cons, ih]

/-- A hunk is applied to what the hunks before it have left. -/
theorem getElem?_applyHunks {hs : List Hunk} {st : Progress} {i : Nat} {h : Hunk} (hi : hs[i]? = some h) :
    (applyHunks o hs st).1[i]? = some (applyHunk o h (applyHunks o (hs.take i) st).2).1 := by
  induction hs generalizing st i with
  | nil => simp at hi
  | cons k ks ih =>
    cases i with
    | zero =>
      simp only [List.getElem?_cons_zero, Option.some.injEq] at hi
      subst hi
      rfl
    | succ i =>
      rw [List.getElem?_cons_succ] at hi
      simp only [applyHunks, List.getElem?_cons_succ, List.take_succ_cons, ih hi]

end

/-! ## One hunk -/

/-- How lines are compared at a level. -/
def Level.test : Level → LineTest
  | exact   => sameText
  | shifted => sameText
  | trimmed => sameTrimmed

theorem Anchor.test_level (a : Anchor) : a.level.test = a.test := by
  unfold Anchor.level Anchor.test
  cases a.relaxed with
  | true => rfl
  | false =>
    simp only [Bool.false_eq_true, if_false]
    split <;> rfl

/-- **A hunk was found after `pos` lines** of a document, and its outcome says how: the before image stands there at the
    level that is told, and the fuzz is the distance from the expected line, and one more if white space was disregarded. -/
structure Found (h : Hunk) (st : Progress) (out : Outcome) (pos : Nat) : Prop where
  line : out.line? = some (pos + 1)
  stands : StandsAt out.level.test st.doc h.before pos
  fuzz : out.fuzz = ((pos : Int) - expectedAt h st.delta st.doc.length).natAbs + (if out.level = .trimmed then 1 else 0)
  level : out.level = .exact ↔ out.fuzz = 0
  status : out.status = if out.fuzz = 0 then .success else .fuzzed

/-- **A hunk was not found**: its before image stands at no place of the document that the options allow. -/
structure Lost (o : Options) (h : Hunk) (st : Progress) (out : Outcome) : Prop where
  line : out.line? = none
  nowhere : ∀ a, Allowed o (expectedAt h st.delta st.doc.length) a → ¬ Fits st.doc h.before a

/-- **The outcome of a hunk is true** of the document that the hunk met. -/
structure Truthful (o : Options) (h : Hunk) (st : Progress) (out : Outcome) : Prop where
  found : out.status ≠ .failed → ∃ pos, Found h st out pos
  lost : out.status = .failed → Lost o h st out

section
variable {o : Options}

theorem Anchor.level_eq_exact_iff (a : Anchor) : a.level = .exact ↔ a.fuzz = 0 := by
  unfold Anchor.level Anchor.fuzz
  cases a.relaxed with
  | true => simp
  | false => simp

theorem Anchor.level_eq_trimmed_iff (a : Anchor) : a.level = .trimmed ↔ a.relaxed = true := by
  unfold Anchor.level
  cases a.relaxed with
  | true => simp
  | false =>
    simp only [Bool.false_eq_true, if_false, iff_false]
    split <;> simp

/-- A hunk that is applied was found. -/
theorem found_of_locate {h : Hunk} {st : Progress} {a : Anchor}
    (hlocate : locate o st.doc h.before (expectedAt h st.delta st.doc.length) = some a) :
    Found h st (.applied a) a.pos := by
  have hfirst := firstPlace_of_locate (expectedAt_le h st.delta st.doc.length) hlocate
  refine ⟨rfl, ?_, ?_, a.level_eq_exact_iff, rfl⟩
  · rw [Outcome.level, a.test_level]
    exact hfirst.fits
  · simp only [Outcome.fuzz, Outcome.level, a.level_eq_trimmed_iff, Anchor.fuzz, hfirst.allowed.offset]

/-- **What becomes of a hunk is told truthfully.** -/
theorem truthful_applyHunk (h : Hunk) (st : Progress) : Truthful o h st (applyHunk o h st).1 := by
  obtain ⟨a, hlocate, ha⟩ | ⟨hlocate, hnone⟩ := applyHunk_cases o h st
  · rw [ha]
    refine ⟨fun _ => ⟨a.pos, found_of_locate hlocate⟩, fun hfailed => ?_⟩
    rw [Outcome.status_eq_failed_iff] at hfailed
    cases hfailed
  · rw [hnone]
    refine ⟨fun hne => absurd rfl hne, fun _ => ⟨rfl, fun a hallowed => ?_⟩⟩
    exact not_fits_of_locate (expectedAt_le h st.delta st.doc.length) hlocate hallowed

/-- **What becomes of hunks is told truthfully**, each in the document that the ones before it have left. -/
theorem truthful_applyHunks {hs : List Hunk} {st : Progress} {i : Nat} {h : Hunk} {out : Outcome}
    (hi : hs[i]? = some h) (hout : (applyHunks o hs st).1[i]? = some out) :
    Truthful o h (replay (hs.take i) ((applyHunks o hs st).1.take i) st) out := by
  rw [getElem?_applyHunks hi, Option.some.injEq] at hout
  rw [take_applyHunks, replay_applyHunks, ← hout]
  exact truthful_applyHunk h _

end

/-! ## The patch -/

/-- The document that hunk number `i` meets, as the report tells of the hunks before it. -/
def Report.met (r : Report) (p : Patch) (doc : Document) (i : Nat) : Progress :=
  replay (p.hunks.take i) (r.outcomes.take i) ⟨doc.lines, 0⟩

/-- **The report of a patch tells the truth** about a document, and about the text that results. -/
structure TellsTruth (o : Options) (p : Patch) (doc : Document) (result : Report × Option Text) : Prop where
  /-- There is an outcome for each hunk, numbered from 1. -/
  numbers : result.1.numbered.map Prod.fst = List.range' 1 p.hunks.length
  /-- Each outcome is true of the document that the hunks before have left. -/
  outcomes : ∀ i h out, p.hunks[i]? = some h → result.1.outcomes[i]? = some out →
    Truthful o h (result.1.met p doc i) out
  /-- There is a text if a hunk was found, and then it is what the replay ends with; it ends as the target did. -/
  text : result.2 = if result.1.outcomes.any fun out => out.status != .failed then
      some (unlines (replay p.hunks result.1.outcomes ⟨doc.lines, 0⟩).doc doc.terminated) else none
  failed : result.1.status = .failed ↔ ∃ out ∈ result.1.outcomes, out.status = .failed
  fuzzed : result.1.status = .fuzzed ↔
    (∀ out ∈ result.1.outcomes, out.status ≠ .failed) ∧ ∃ out ∈ result.1.outcomes, out.status = .fuzzed

theorem numbered_fst (r : Report) : r.numbered.map Prod.fst = List.range' 1 r.outcomes.length := by
  have hfst : Prod.fst ∘ (fun x : Outcome × Nat => (x.2 + 1, x.1)) = (1 + ·) ∘ Prod.snd := by
    funext x
    exact Nat.add_comm _ _
  rw [Report.numbered, List.map_map, hfst, ← List.map_map, List.zipIdx_map_snd, List.map_add_range']

/-- A patch that was tried is fuzzed if no hunk failed and one is fuzzed. -/
theorem status_eq_fuzzed_iff {r : Report} (h : r.refusal = none) :
    r.status = .fuzzed ↔ (∀ out ∈ r.outcomes, out.status ≠ .failed) ∧ ∃ out ∈ r.outcomes, out.status = .fuzzed := by
  simp only [Report.status, h, Option.isSome_none, Bool.false_or, List.any_eq_true, beq_iff_eq]
  split
  · rename_i hfailed
    obtain ⟨out, hout, hstatus⟩ := hfailed
    exact ⟨nofun, fun hnone => absurd hstatus (hnone.1 out hout)⟩
  · rename_i hfailed
    have hnone : ∀ out ∈ r.outcomes, out.status ≠ .failed := fun out hout hstatus => hfailed ⟨out, hout, hstatus⟩
    split
    · exact ⟨fun _ => ⟨hnone, ‹_›⟩, fun _ => rfl⟩
    · exact ⟨nofun, fun hfuzzed => absurd hfuzzed.2 ‹_›⟩

/-- A hunk has a line if it did not fail. -/
theorem line?_isSome (out : Outcome) : out.line?.isSome = (out.status != .failed) := by
  rw [Bool.eq_iff_iff, bne_iff_ne, ne_eq, Outcome.status_eq_failed_iff, Option.isSome_iff_ne_none]

/-- A patch that has a target is reported truthfully. -/
theorem tellsTruth_of_targetOf {o : Options} {p : Patch} {s : Store} {doc : Document} (h : targetOf p s = .ok doc) :
    TellsTruth o p doc (probe o p s) := by
  simp only [probe, h]
  refine ⟨?_, fun i k out => truthful_applyHunks, ?_, ?_, status_eq_fuzzed_iff rfl⟩
  · rw [numbered_fst, length_applyHunks]
  · simp only [line?_isSome, replay_applyHunks, Document.toText]
  · simp [Report.status_eq_failed_iff]

/-- **A report tells the truth**, whatever the options: about the lines of a source, or about no lines where the patch
    creates its target. -/
theorem probe_truthful {o : Options} {p : Patch} {s : Store} :
    (∀ t, (s.find? p.target).map (·.content) = some (.source t) → TellsTruth o p (.ofText t) (probe o p s))
      ∧ (s.find? p.target = none → p.createsFile = true → TellsTruth o p ⟨[], true⟩ (probe o p s)) := by
  constructor
  · intro t hfind
    obtain ⟨⟨k, content⟩, hk, rfl⟩ := Option.map_eq_some_iff.1 hfind
    exact tellsTruth_of_targetOf (by simp only [targetOf, hk])
  · intro hfind hcreates
    exact tellsTruth_of_targetOf (by simp only [targetOf, hfind, hcreates, if_true])

/-- The first hunk stands a line before the declared one, the second nowhere, and the third is indented otherwise; beside
    it, a patch that creates its target. -/
theorem probe_truthful_partly :
    ∃ (s : Store) (p q : Patch), (s.find? p.target).map (·.content) = some (.source (text "a\nb\nc\n d\n"))
      ∧ TellsTruth ⟨.trimmed, 3, true⟩ p (.ofText (text "a\nb\nc\n d\n")) (probe ⟨.trimmed, 3, true⟩ p s)
      ∧ s.find? q.target = none ∧ q.createsFile = true
      ∧ TellsTruth ⟨.exact, 0, false⟩ q ⟨[], true⟩ (probe ⟨.exact, 0, false⟩ q s) := by
  let key : Key := ⟨text "F", by decide, by decide⟩
  let other : Key := ⟨text "G", by decide, by decide⟩
  let first : Hunk := ⟨⟨2, 1⟩, ⟨2, 2⟩, [⟨.context, text "a"⟩, ⟨.add, text "a1"⟩]⟩
  let second : Hunk := ⟨⟨3, 1⟩, ⟨4, 1⟩, [⟨.remove, text "x"⟩, ⟨.add, text "y"⟩]⟩
  let third : Hunk := ⟨⟨4, 1⟩, ⟨5, 1⟩, [⟨.remove, text "d"⟩, ⟨.add, text "e"⟩]⟩
  let creation : Hunk := ⟨⟨0, 0⟩, ⟨1, 1⟩, [⟨.add, text "new"⟩]⟩
  let store := Store.empty.set key (.source (text "a\nb\nc\n d\n"))
  have hfind : (store.find? key).map (·.content) = some (.source (text "a\nb\nc\n d\n")) := by decide
  have hnone : store.find? other = none := by decide
  exact ⟨store, ⟨key, [first, second, third]⟩, ⟨other, [creation]⟩, hfind, probe_truthful.1 _ hfind, hnone, by decide,
    probe_truthful.2 hnone (by decide)⟩

end JavaMend.Diff
