import JavaMend.Proofs.Diff.Replay
import JavaMend.Proofs.Diff.Reversal

/-!
# `Proofs.Diff.Widening` — searching farther does not disturb a patch that works

Options that try higher levels, or look farther away, allow more places for a hunk. A place that only they allow comes
behind every place that was allowed before, as long as the distance does not grow at level 2, where equal lines far away
are preferred to lines nearby that are equal up to white space. So the first place stays the first one
(`FirstPlace.extends`), a hunk that was found is found there again, and a patch none of whose hunks failed does the same
(`probe_extends`).

The exception is real: with white space disregarded, every greater distance disturbs some patch that works
(`exists_disturbed`).

## Contents
- **Options.** `Options.Extends`; `Options.extends_of_level`, `Options.extends_of_offset`.
- **Places.** `Allowed.extends`, `precedes_of_not_allowed`; `FirstPlace.extends`, `locate_extends`.
- **The run.** `applyHunk_extends`, `applyHunks_extends`.
- **The patch.** `probe_extends`.
- **The exception.** `farTwin`, `removeTwin`; `firstPlace_farTwin`, `not_firstPlace_farTwin`, `exists_disturbed`.
-/

namespace JavaMend.Diff

open JavaMend Text

/-! ## Options -/

/-- **The second options search at least as far as the first**, and no farther away if the first disregard white space.
    Whether they are lenient does not matter. -/
structure Options.Extends (o o' : Options) : Prop where
  level : o.maxLevel.rank ≤ o'.maxLevel.rank
  offset : o.maxOffset ≤ o'.maxOffset
  window : o'.maxOffset = o.maxOffset ∨ o.maxLevel.rank ≤ 1

namespace Options

variable {o o' : Options}

/-- A higher level at the same distance. -/
theorem extends_of_level (hlevel : o.maxLevel.rank ≤ o'.maxLevel.rank) (hoffset : o'.maxOffset = o.maxOffset) :
    o.Extends o' :=
  ⟨hlevel, Nat.le_of_eq hoffset.symm, .inl hoffset⟩

/-- A greater distance at the same level, which is at most 1. -/
theorem extends_of_offset (hlevel : o'.maxLevel = o.maxLevel) (hone : o.maxLevel.rank ≤ 1)
    (hoffset : o.maxOffset ≤ o'.maxOffset) : o.Extends o' :=
  ⟨Nat.le_of_eq (congrArg Level.rank hlevel.symm), hoffset, .inr hone⟩

end Options

/-! ## Places -/

section
variable {o o' : Options} {doc image : List Text} {expected : Nat} {a b : Anchor}

theorem Allowed.extends (h : Allowed o expected a) (hext : o.Extends o') : Allowed o' expected a where
  offset := h.offset
  near := h.near.trans hext.offset
  level := h.level.trans hext.level

theorem level_rank_le_one_iff : a.level.rank ≤ 1 ↔ a.relaxed = false := by
  unfold Anchor.level
  cases a.relaxed with
  | true => simp [Level.rank]
  | false =>
    simp only [Bool.false_eq_true, if_false, iff_true]
    split <;> simp [Level.rank]

/-- A place at a lower level is preferred. -/
theorem precedes_of_level_lt (h : a.level.rank < b.level.rank) : Precedes a b := by
  have htop : b.level.rank ≤ 2 := by
    cases b.level <;> simp [Level.rank]
  have ha : a.relaxed = false := level_rank_le_one_iff.1 (by omega)
  cases hb : b.relaxed with
  | true => exact .inl ⟨ha, hb⟩
  | false =>
    -- Both have equal lines, so the first one is at the expected line and the second one is not.
    have hlt : a.offset < b.offset := by
      simp only [Anchor.level, ha, hb, Bool.false_eq_true, if_false] at h
      by_cases hza : a.offset = 0
      · by_cases hzb : b.offset = 0
        · rw [if_pos hza, if_pos hzb] at h
          exact absurd h (Nat.lt_irrefl _)
        · omega
      · rw [if_neg hza] at h
        by_cases hzb : b.offset = 0
        · rw [if_pos hzb] at h
          exact absurd h (by decide)
        · rw [if_neg hzb] at h
          exact absurd h (Nat.lt_irrefl _)
    exact .inr ⟨ha.trans hb.symm, .inl hlt⟩

/-- **A place that only the wider options allow comes behind those that were allowed before.** -/
theorem precedes_of_not_allowed (hext : o.Extends o') (ha : Allowed o expected a) (hb : Allowed o' expected b)
    (hnew : ¬ Allowed o expected b) : Precedes a b := by
  by_cases hlevel : b.level.rank ≤ o.maxLevel.rank
  · -- The place is farther away than it was allowed to be, so white space counts.
    have hfar : o.maxOffset < b.offset := by
      by_contra hnear
      exact hnew ⟨hb.offset, Nat.le_of_not_lt hnear, hlevel⟩
    have hone : o.maxLevel.rank ≤ 1 := by
      rcases hext.window with hsame | hone
      · have hnear := hb.near
        omega
      · exact hone
    have hsame : a.relaxed = b.relaxed := by
      rw [level_rank_le_one_iff.1 (ha.level.trans hone), level_rank_le_one_iff.1 (hlevel.trans hone)]
    exact .inr ⟨hsame, .inl (Nat.lt_of_le_of_lt ha.near hfar)⟩
  · exact precedes_of_level_lt (Nat.lt_of_le_of_lt ha.level (Nat.lt_of_not_le hlevel))

/-- **The first place stays the first one** when the search goes farther. -/
theorem FirstPlace.extends (h : FirstPlace o doc image expected a) (hext : o.Extends o') :
    FirstPlace o' doc image expected a where
  allowed := h.allowed.extends hext
  fits := h.fits
  first := by
    intro b hb hfits
    by_cases hold : Allowed o expected b
    · exact h.first b hold hfits
    · exact .inr (precedes_of_not_allowed hext h.allowed hb hold)

/-- What is found is found again. -/
theorem locate_extends (hext : o.Extends o') (hexpected : expected ≤ doc.length)
    (h : locate o doc image expected = some a) : locate o' doc image expected = some a := by
  have hfirst := firstPlace_of_locate hexpected h
  exact locate_of_firstPlace hexpected (hfirst.extends hext)

end

/-! ## The run -/

section
variable {o o' : Options}

/-- **One hunk.** If it does not fail, the wider search does the same with it. -/
theorem applyHunk_extends (hext : o.Extends o') {h : Hunk} {st : Progress}
    (hok : (applyHunk o h st).1.status ≠ .failed) : applyHunk o' h st = applyHunk o h st := by
  obtain ⟨a, hlocate, ha⟩ | ⟨-, hnone⟩ := applyHunk_cases o h st
  · have hagain := locate_extends hext (expectedAt_le h st.delta st.doc.length) hlocate
    rw [ha]
    simp only [applyHunk, hagain, Progress.replace]
  · rw [hnone] at hok
    exact absurd rfl hok

/-- **All hunks.** If none fails, the wider search does the same with them. -/
theorem applyHunks_extends (hext : o.Extends o') {hs : List Hunk} {st : Progress}
    (hok : ∀ out ∈ (applyHunks o hs st).1, out.status ≠ .failed) : applyHunks o' hs st = applyHunks o hs st := by
  induction hs generalizing st with
  | nil => rfl
  | cons h hs ih =>
    simp only [applyHunks, List.mem_cons, forall_eq_or_imp] at hok
    obtain ⟨hfirst, hrest⟩ := hok
    have hstep := applyHunk_extends hext hfirst
    -- The hunk leads to the same document, so the induction hypothesis is about the rest of both runs.
    simp only [applyHunks, hstep, ih hrest]

end

/-! ## The patch -/

/-- **Searching farther does not disturb a patch that works.** If no hunk of a patch fails, a search at higher levels, or
    one at greater distances where white space counts, ends with the same report and the same text. -/
theorem probe_extends {o o' : Options} {p : Patch} {s : Store} (hext : o.Extends o')
    (hok : (probe o p s).1.status ≠ .failed) : probe o' p s = probe o p s := by
  cases htarget : targetOf p s with
  | error refusal =>
    -- A patch without a target fails whatever the options.
    have hfailed : (probe o p s).1.status = .failed := by simp [probe, htarget, Report.status]
    exact absurd hfailed hok
  | ok doc =>
    have hfound : ∀ out ∈ (applyHunks o p.hunks ⟨doc.lines, 0⟩).1, out.status ≠ .failed := by
      intro out hout hfailed
      rw [ne_eq, Report.status_eq_failed_iff] at hok
      refine hok (.inr ⟨out, ?_, hfailed⟩)
      simpa only [probe, htarget] using hout
    simp only [probe, htarget, applyHunks_extends hext hfound]

/-- Two hunks, of which the first stands a line later than declared. A search at level 2, or at distance 50, does the
    same as one at level 1 and distance 1. -/
theorem probe_extends_shifted :
    ∃ (ps : List Patch) (p : Patch) (s : Store),
      parseAll (text "--- a/F\n+++ b/F\n@@ -1,1 +1,1 @@\n-b\n+c\n@@ -3,1 +3,1 @@\n-x\n+y\n") 1 = .ok ps ∧ p ∈ ps
        ∧ (probe ⟨.shifted, 1, false⟩ p s).1.status = .fuzzed
        ∧ probe ⟨.trimmed, 1, false⟩ p s = probe ⟨.shifted, 1, false⟩ p s
        ∧ probe ⟨.shifted, 50, true⟩ p s = probe ⟨.shifted, 1, false⟩ p s := by
  let key : Key := ⟨text "F", by decide, by decide⟩
  let first : Hunk := ⟨⟨1, 1⟩, ⟨1, 1⟩, [⟨.remove, text "b"⟩, ⟨.add, text "c"⟩]⟩
  let second : Hunk := ⟨⟨3, 1⟩, ⟨3, 1⟩, [⟨.remove, text "x"⟩, ⟨.add, text "y"⟩]⟩
  let store := Store.empty.set key (.source (text "a\nb\nx\n"))
  have hps : parseAll (text "--- a/F\n+++ b/F\n@@ -1,1 +1,1 @@\n-b\n+c\n@@ -3,1 +3,1 @@\n-x\n+y\n") 1
      = .ok [⟨key, [first, second]⟩] := by decide +kernel
  have hfuzzed : (probe ⟨.shifted, 1, false⟩ ⟨key, [first, second]⟩ store).1.status = .fuzzed := by decide +kernel
  have hok : (probe ⟨.shifted, 1, false⟩ ⟨key, [first, second]⟩ store).1.status ≠ .failed := by
    rw [hfuzzed]
    decide
  refine ⟨_, _, store, hps, List.mem_cons_self, hfuzzed, ?_, ?_⟩
  · exact probe_extends (Options.extends_of_level (by decide) rfl) hok
  · exact probe_extends (Options.extends_of_offset rfl (by decide) (by decide)) hok

/-! ## The exception -/

/-- A line with white space in front, and the same line without it `distance + 1` lines later. -/
def farTwin (distance : Nat) : List Text := text " x" :: (List.replicate distance (text "y") ++ [text "x"])

/-- The hunk that removes the line from the start. -/
def removeTwin : Hunk := ⟨⟨1, 1⟩, ⟨1, 0⟩, [⟨.remove, text "x"⟩]⟩

theorem isLine_farTwin (distance : Nat) : ∀ l ∈ farTwin distance, IsLine l := by
  intro l hl
  simp only [farTwin, List.mem_cons, List.mem_append, List.mem_replicate, List.not_mem_nil, or_false] at hl
  rcases hl with rfl | ⟨-, rfl⟩ | rfl <;> decide

/-- The line without white space stands at the end only. -/
theorem getElem?_farTwin_iff {distance i : Nat} : (farTwin distance)[i]? = some (text "x") ↔ i = distance + 1 := by
  cases i with
  | zero =>
    have hne : text " x" ≠ text "x" := by decide
    exact iff_of_false (fun h => hne (Option.some.inj h)) (Nat.succ_ne_zero distance).symm
  | succ i =>
    rw [farTwin, List.getElem?_cons_succ, Nat.succ_inj]
    by_cases hi : i < distance
    · rw [List.getElem?_append_left (by rwa [List.length_replicate]), List.getElem?_replicate_of_lt hi]
      exact iff_of_false (by decide) (Nat.ne_of_lt hi)
    · rw [List.getElem?_append_right (by rw [List.length_replicate]; omega), List.length_replicate,
        List.getElem?_eq_some_iff]
      constructor
      · rintro ⟨hlt, -⟩
        rw [List.length_singleton] at hlt
        omega
      · rintro rfl
        simp

section
variable {o o' : Options}

/-- Equal lines stand at the end only. -/
theorem fits_farTwin_iff {distance : Nat} {b : Anchor} (h : b.relaxed = false) :
    Fits (farTwin distance) removeTwin.before b ↔ b.pos = distance + 1 := by
  have htest : b.test = sameText := by simp [Anchor.test, h]
  rw [Fits, htest, ← getElem?_farTwin_iff]
  constructor
  · intro hfits
    obtain ⟨line, hline, hsame⟩ := hfits.lines 0 (text "x") rfl
    rw [Nat.add_zero] at hline
    rw [hline]
    exact congrArg some (eq_of_beq hsame)
  · intro hline
    refine ⟨(List.getElem?_eq_some_iff.1 hline).1, fun i want hi => ?_⟩
    cases i with
    | zero =>
      obtain rfl : text "x" = want := by simpa [Hunk.before, removeTwin] using hi
      exact ⟨text "x", hline, by decide⟩
    | succ i => simp [Hunk.before, removeTwin] at hi

/-- Within the distance the line with white space is the first place. -/
theorem firstPlace_farTwin (hlevel : o.maxLevel = .trimmed) :
    FirstPlace o (farTwin o.maxOffset) removeTwin.before 0 ⟨0, 0, true⟩ where
  allowed := ⟨rfl, Nat.zero_le _, by rw [hlevel]; decide⟩
  fits := by
    refine ⟨by simp [farTwin, Hunk.before, removeTwin], fun i want hi => ?_⟩
    cases i with
    | zero =>
      obtain rfl : text "x" = want := by simpa [Hunk.before, removeTwin] using hi
      exact ⟨text " x", rfl, by decide⟩
    | succ i => simp [Hunk.before, removeTwin] at hi
  first := by
    intro b hb hfits
    have hoffset := hb.offset
    cases hrelaxed : b.relaxed with
    | false =>
      -- The equal line is too far away.
      have hpos := (fits_farTwin_iff hrelaxed).1 hfits
      have hnear := hb.near
      omega
    | true =>
      by_cases hzero : b.offset = 0
      · obtain ⟨pos, offset, relaxed⟩ := b
        simp only at hoffset hrelaxed hzero
        have hpos : pos = 0 := by omega
        exact .inl (by rw [hpos, hzero, hrelaxed])
      · exact .inr (.inr ⟨hrelaxed.symm, .inl (Nat.pos_of_ne_zero hzero)⟩)

/-- Beyond the distance it is not: the equal line is preferred. -/
theorem not_firstPlace_farTwin {distance : Nat} (hlevel : o.maxLevel = .trimmed) (hoffset : distance < o.maxOffset) :
    ¬ FirstPlace o (farTwin distance) removeTwin.before 0 ⟨0, 0, true⟩ := by
  intro hfirst
  have hallowed : Allowed o 0 ⟨distance + 1, distance + 1, false⟩ := by
    refine ⟨by simp only; omega, hoffset, ?_⟩
    rw [hlevel]
    exact Nat.le_succ 1
  rcases hfirst.first _ hallowed ((fits_farTwin_iff rfl).2 rfl) with heq | hprecedes
  · cases heq
  · rcases hprecedes with ⟨hrelaxed, -⟩ | ⟨hrelaxed, -⟩ <;> cases hrelaxed

/-- **At level 2 every greater distance disturbs a patch that works**: with white space disregarded, equal lines farther
    away are preferred. -/
theorem exists_disturbed (hlevel : o.maxLevel = .trimmed) (hlevel' : o'.maxLevel = .trimmed)
    (hoffset : o.maxOffset < o'.maxOffset) :
    ∃ (p : Patch) (s : Store), (probe o p s).1.status ≠ .failed ∧ probe o' p s ≠ probe o p s := by
  let key : Key := ⟨text "F", by decide, by decide⟩
  let p : Patch := ⟨key, [removeTwin]⟩
  let s : Store := Store.empty.set key (.source (unlines (farTwin o.maxOffset) true))
  have htarget : targetOf p s = .ok ⟨farTwin o.maxOffset, true⟩ := by
    have hfind : s.find? p.target = some ⟨key, .source (unlines (farTwin o.maxOffset) true)⟩ := Store.find?_set_self _ _ _
    simp only [targetOf, hfind, ofText_unlines (isLine_farTwin _)]
  -- The hunk is expected at the start, where the line with white space stands.
  have hexpected : expectedAt removeTwin 0 (farTwin o.maxOffset).length = 0 := by
    simp [expectedAt, declared, removeTwin, signedWord]
  have hfound := locate_of_firstPlace (Nat.zero_le _) (firstPlace_farTwin hlevel)
  have hmissed := mt (firstPlace_of_locate (Nat.zero_le _)) (not_firstPlace_farTwin hlevel' hoffset)
  have hreport : (probe o p s).1.outcomes = [.applied ⟨0, 0, true⟩] := by
    simp only [probe, htarget, applyHunks, applyHunk, p, hexpected, hfound]
  refine ⟨p, s, ?_, fun heq => hmissed ?_⟩
  · rw [ne_eq, Report.status_eq_failed_iff, hreport]
    have hrefusal : (probe o p s).1.refusal = none := by simp only [probe, htarget]
    simp [hrefusal, Outcome.status, Anchor.fuzz]
  · have hreport' : (probe o' p s).1.outcomes = [.applied ⟨0, 0, true⟩] := by rw [heq, hreport]
    simp only [probe, htarget, applyHunks, p, List.cons.injEq, and_true] at hreport'
    obtain ⟨a, hlocate, ha⟩ | ⟨-, hnone⟩ := applyHunk_cases o' removeTwin ⟨farTwin o.maxOffset, 0⟩
    · rw [ha] at hreport'
      cases hreport'
      rwa [hexpected] at hlocate
    · rw [hnone] at hreport'
      cases hreport'

end

end JavaMend.Diff
