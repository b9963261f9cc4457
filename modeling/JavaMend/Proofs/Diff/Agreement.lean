import JavaMend.Diff.Engine
import JavaMend.Proofs.Diff.Parsed
import Mathlib.Algebra.Ring.Int.Defs
import Mathlib.Data.List.Chain

/-!
# `Proofs.Diff.Agreement` — a patch that agrees with its target applies as declared

A patch agrees with a document if its hunks declare disjoint ranges in order and every range reads as the before
image of its hunk. Then no search takes place: each hunk is found where the document has moved to, and the result is
the document with all ranges replaced at once.

The proof is one induction over the hunks. Between two hunks the document consists of a finished front and an untouched
rest, `front ++ doc.drop pos`, and the front has `pos + delta` lines (`applyHunk_front`, `applyHunks_front`).

## Contents
- **Agreement.** `Agrees`, its recursive form `AgreesFrom`, and `Agrees.agreesFrom`.
- **Replacing at once.** `replaceFrom`, `Hunk.growth`, `anchors`.
- **Matching.** `standsAtStart_sameText`, `locate_of_prefix`.
- **The run.** `expectedAt_front`, `applyHunk_front`, `applyHunks_front`.
- **Probing.** `AppliesAsDeclared`, `probe_of_agreesFrom`, `probe_agrees`.
-/

namespace JavaMend.Diff

open JavaMend Text

/-! ## Agreement -/

/-- **Agreement.** The ranges that the hunks declare follow one another in the document, and each holds the before
    image of its hunk. -/
structure Agrees (doc : List Text) (hs : List Hunk) : Prop where
  ordered : hs.IsChain fun g h => declared g + g.old.length ≤ declared h
  within : ∀ h ∈ hs.getLast?, declared h + h.old.length ≤ doc.length
  stands : ∀ h ∈ hs, (doc.drop (declared h)).take h.old.length = h.before

/-- Agreement of the hunks that are left after `pos` lines of the document. -/
def AgreesFrom (doc : List Text) : Nat → List Hunk → Prop
  | pos, []      => pos ≤ doc.length
  | pos, h :: hs =>
    pos ≤ declared h ∧ (doc.drop (declared h)).take h.old.length = h.before
      ∧ AgreesFrom doc (declared h + h.old.length) hs

/-- What agrees lies inside the document. -/
theorem AgreesFrom.le_length {doc : List Text} {pos : Nat} {hs : List Hunk} (h : AgreesFrom doc pos hs) :
    pos ≤ doc.length := by
  induction hs generalizing pos with
  | nil => exact h
  | cons k ks ih =>
    obtain ⟨hpos, -, hrest⟩ := h
    have := ih hrest
    omega

theorem Agrees.tail {doc : List Text} {k g : Hunk} {hs : List Hunk} (h : Agrees doc (k :: g :: hs)) :
    Agrees doc (g :: hs) where
  ordered := (List.isChain_cons_cons.1 h.ordered).2
  within := by simpa only [List.getLast?_cons_cons] using h.within
  stands := fun x hx => h.stands x (List.mem_cons_of_mem k hx)

/-- Agreement can be read from any position up to the first hunk. -/
theorem Agrees.agreesFrom {doc : List Text} {pos : Nat} {k : Hunk} {hs : List Hunk} (h : Agrees doc (k :: hs))
    (hpos : pos ≤ declared k) : AgreesFrom doc pos (k :: hs) := by
  induction hs generalizing pos k with
  | nil => exact ⟨hpos, h.stands k List.mem_cons_self, h.within k rfl⟩
  | cons g gs ih =>
    exact ⟨hpos, h.stands k List.mem_cons_self, ih h.tail (List.isChain_cons_cons.1 h.ordered).1⟩

/-- In particular from the first line. -/
theorem Agrees.agreesFrom_zero {doc : List Text} {hs : List Hunk} (h : Agrees doc hs) : AgreesFrom doc 0 hs := by
  cases hs with
  | nil => exact Nat.zero_le _
  | cons k ks => exact h.agreesFrom (Nat.zero_le _)

/-! ## Replacing at once -/

/-- The document from line `pos` on, with the range of every hunk replaced by its after image. -/
def replaceFrom (doc : List Text) : Nat → List Hunk → List Text
  | pos, []      => doc.drop pos
  | pos, h :: hs =>
    (doc.drop pos).take (declared h - pos) ++ h.after ++ replaceFrom doc (declared h + h.old.length) hs

/-- By how many lines a hunk makes a document longer. -/
def Hunk.growth (h : Hunk) : Int := h.new.length - h.old.length

/-- Where hunks stand, without fuzz, in a document that has grown by `delta` before the first of them. -/
def anchors (delta : Int) : List Hunk → List Anchor
  | []      => []
  | h :: hs => ⟨(declared h + delta).toNat, 0, false⟩ :: anchors (delta + h.growth) hs

@[simp] theorem length_anchors (delta : Int) (hs : List Hunk) : (anchors delta hs).length = hs.length := by
  induction hs generalizing delta with
  | nil => rfl
  | cons h hs ih => simp [anchors, ih]

theorem fuzz_of_mem_anchors {delta : Int} {hs : List Hunk} {a : Anchor} (h : a ∈ anchors delta hs) : a.fuzz = 0 := by
  induction hs generalizing delta with
  | nil => cases h
  | cons k ks ih =>
    rcases List.mem_cons.1 h with rfl | h
    · rfl
    · exact ih h

/-- The place of a hunk is the declared one, moved by the growth of the hunks before it. -/
theorem getElem?_anchors {delta : Int} {hs : List Hunk} {i : Nat} {h : Hunk} (hi : hs[i]? = some h) :
    (anchors delta hs)[i]? =
      some ⟨(declared h + (delta + ((hs.take i).map Hunk.growth).sum)).toNat, 0, false⟩ := by
  induction hs generalizing delta i with
  | nil => simp at hi
  | cons k ks ih =>
    cases i with
    | zero =>
      simp only [List.getElem?_cons_zero, Option.some.injEq] at hi
      subst hi
      simp [anchors]
    | succ i =>
      rw [List.getElem?_cons_succ] at hi
      rw [anchors, List.getElem?_cons_succ, ih hi, List.take_succ_cons, List.map_cons, List.sum_cons, Int.add_assoc]

/-- The places are not below the first line: what a hunk takes away lies in its range. -/
theorem place_nonneg {doc : List Text} {pos : Nat} {delta : Int} {hs : List Hunk} {i : Nat} {h : Hunk}
    (hagree : AgreesFrom doc pos hs) (hdelta : 0 ≤ pos + delta) (hi : hs[i]? = some h) :
    0 ≤ declared h + (delta + ((hs.take i).map Hunk.growth).sum) := by
  induction hs generalizing pos delta i with
  | nil => simp at hi
  | cons k ks ih =>
    obtain ⟨hpos, -, hrest⟩ := hagree
    cases i with
    | zero =>
      simp only [List.getElem?_cons_zero, Option.some.injEq] at hi
      subst hi
      simp only [List.take_zero, List.map_nil, List.sum_nil]
      omega
    | succ i =>
      rw [List.getElem?_cons_succ] at hi
      have hnext : 0 ≤ ((declared k + k.old.length : Nat) : Int) + (delta + k.growth) := by
        rw [Hunk.growth]
        omega
      have := ih hrest hnext hi
      rwa [List.take_succ_cons, List.map_cons, List.sum_cons, ← Int.add_assoc delta]

/-! ## Matching -/

/-- An image stands at the start of a document if it is a prefix of it. -/
theorem standsAtStart_sameText {doc image : List Text} (h : image <+: doc) :
    standsAtStart sameText doc image = true := by
  induction image generalizing doc with
  | nil => cases doc <;> rfl
  | cons w ws ih =>
    obtain ⟨rest, rfl⟩ := h
    simp [standsAtStart, sameText, ih (List.prefix_append ws rest)]

/-- An image that stands where it is expected is found there. -/
theorem locate_of_prefix {o : Options} {doc image : List Text} {expected : Nat} (hlen : expected ≤ doc.length)
    (h : image <+: doc.drop expected) : locate o doc image expected = some ⟨expected, 0, false⟩ := by
  have hm : matchesAt sameText doc image expected = true := by
    simp [matchesAt, hlen, standsAtStart_sameText h]
  exact if_pos hm

/-! ## The run -/

section
variable {o : Options} {doc front : List Text} {pos : Nat} {delta : Int}

/-- **A hunk is expected behind the front and the lines up to its range.** -/
theorem expectedAt_front {h : Hunk} (hfit : doc.length < Nat.pow 2 63) (hpos : pos ≤ declared h)
    (hend : declared h ≤ doc.length) (hdelta : (front.length : Int) = pos + delta) :
    expectedAt h delta (front ++ doc.drop pos).length = front.length + (declared h - pos) := by
  rw [expectedAt, signedWord_of_lt (by omega), List.length_append, List.length_drop]
  omega

/-- **One hunk.** It is found behind the front and the lines up to its range; these and its after image join the
    front. -/
theorem applyHunk_front {h : Hunk} (hfit : doc.length < Nat.pow 2 63) (hc : h.Counted) (hpos : pos ≤ declared h)
    (hstands : (doc.drop (declared h)).take h.old.length = h.before)
    (hend : declared h + h.old.length ≤ doc.length) (hdelta : (front.length : Int) = pos + delta) :
    applyHunk o h ⟨front ++ doc.drop pos, delta⟩ =
      (.applied ⟨(declared h + delta).toNat, 0, false⟩,
        ⟨front ++ (doc.drop pos).take (declared h - pos) ++ h.after ++ doc.drop (declared h + h.old.length),
          delta + h.growth⟩) := by
  have hexp := expectedAt_front (h := h) hfit hpos (by omega) hdelta
  have hplace : (declared h + delta).toNat = front.length + (declared h - pos) := by omega
  have hdrop : (front ++ doc.drop pos).drop (front.length + (declared h - pos)) = doc.drop (declared h) := by
    rw [List.drop_length_add_append, List.drop_drop, Nat.add_sub_cancel' hpos]
  have hprefix : h.before <+: (front ++ doc.drop pos).drop (front.length + (declared h - pos)) := by
    rw [hdrop, ← hstands]
    exact List.take_prefix _ _
  have hlocate : locate o (front ++ doc.drop pos) h.before (front.length + (declared h - pos))
      = some ⟨front.length + (declared h - pos), 0, false⟩ :=
    locate_of_prefix (by rw [List.length_append, List.length_drop]; omega) hprefix
  have hsplice : splice (front ++ doc.drop pos) (front.length + (declared h - pos)) h.before.length h.after
      = front ++ (doc.drop pos).take (declared h - pos) ++ h.after ++ doc.drop (declared h + h.old.length) := by
    rw [splice, ← List.drop_drop, hdrop, List.drop_drop, List.take_length_add_append, hc.before]
  simp only [applyHunk, hexp, hlocate, hplace, hsplice, Hunk.growth, ← hc.before, ← hc.after, Int.add_sub_assoc]

/-- **All hunks.** From a front and an untouched rest the run finds every hunk in its place and leaves the front with
    the rest in which all ranges are replaced. -/
theorem applyHunks_front {hs : List Hunk} (hfit : doc.length < Nat.pow 2 63) (hc : ∀ h ∈ hs, h.Counted)
    (hagree : AgreesFrom doc pos hs) (hdelta : (front.length : Int) = pos + delta) :
    (applyHunks o hs ⟨front ++ doc.drop pos, delta⟩).1 = (anchors delta hs).map .applied
      ∧ (applyHunks o hs ⟨front ++ doc.drop pos, delta⟩).2.doc = front ++ replaceFrom doc pos hs := by
  induction hs generalizing front pos delta with
  | nil => exact ⟨rfl, rfl⟩
  | cons h hs ih =>
    obtain ⟨hpos, hstands, hrest⟩ := hagree
    have hcount := hc h List.mem_cons_self
    have hstep := applyHunk_front (o := o) hfit hcount hpos hstands hrest.le_length hdelta
    -- The invariant for the rest: the new front ends with the range of this hunk.
    have hfront : ((front ++ (doc.drop pos).take (declared h - pos) ++ h.after).length : Int)
        = (declared h + h.old.length : Nat) + (delta + h.growth) := by
      have := hrest.le_length
      simp only [List.length_append, List.length_take, List.length_drop, hcount.after, Hunk.growth]
      omega
    obtain ⟨hout, hdoc⟩ := ih (fun k hk => hc k (List.mem_cons_of_mem h hk)) hrest hfront
    constructor
    · simp only [applyHunks, hstep, anchors, List.map_cons, hout]
    · rw [applyHunks, hstep, replaceFrom, ← List.append_assoc, ← List.append_assoc]
      exact hdoc

end

/-! ## Probing -/

/-- A patch that was tried succeeds if all its hunks are applied without fuzz. -/
theorem status_applied {target : Key} {as : List Anchor} (h : ∀ a ∈ as, a.fuzz = 0) :
    Report.status ⟨target, as.map .applied, none⟩ = .success := by
  have hstatus : ∀ out ∈ as.map Outcome.applied, out.status = .success := by
    intro out hout
    obtain ⟨a, ha, rfl⟩ := List.mem_map.1 hout
    simp [Outcome.status, h a ha]
  have hnone : ∀ status ≠ Status.success, (as.map Outcome.applied).any (fun o => o.status == status) = false := by
    intro status hne
    rw [List.any_eq_false]
    intro out hout
    simp [hstatus out hout, Ne.symm hne]
  simp [Report.status, hnone .failed (by decide), hnone .fuzzed (by decide)]

/-- **What agreement promises of a probe.** Every hunk succeeds without fuzz on its declared line, moved by the growth
    of the hunks before it, and the text has all ranges replaced at once; it ends as the target did. -/
structure AppliesAsDeclared (doc : Document) (p : Patch) (result : Report × Option Text) : Prop where
  target : result.1.target = p.target
  status : result.1.status = .success
  length : result.1.outcomes.length = p.hunks.length
  outcome : ∀ i h, p.hunks[i]? = some h → ∃ out line, result.1.outcomes[i]? = some out
    ∧ out.status = .success ∧ out.fuzz = 0 ∧ out.line? = some line
    ∧ (line : Int) = declared h + 1 + ((p.hunks.take i).map Hunk.growth).sum
  text : result.2 = some (unlines (replaceFrom doc.lines 0 p.hunks) doc.terminated)

/-- A sound patch that agrees with the document it finds applies as declared. -/
theorem probe_of_agreesFrom {o : Options} {p : Patch} {s : Store} {doc : Document} (hsound : p.Sound)
    (hdoc : targetOf p s = .ok doc) (hfit : doc.lines.length < Nat.pow 2 63)
    (hagree : AgreesFrom doc.lines 0 p.hunks) : AppliesAsDeclared doc p (probe o p s) := by
  have hrun : (applyHunks o p.hunks ⟨[] ++ doc.lines.drop 0, 0⟩).1 = (anchors 0 p.hunks).map .applied
      ∧ (applyHunks o p.hunks ⟨[] ++ doc.lines.drop 0, 0⟩).2.doc = [] ++ replaceFrom doc.lines 0 p.hunks :=
    applyHunks_front hfit hsound.counted hagree rfl
  rw [List.drop_zero, List.nil_append, List.nil_append] at hrun
  obtain ⟨hout, htext⟩ := hrun
  -- There is a hunk, so something applies and the text is given.
  have hany : ((anchors 0 p.hunks).map Outcome.applied).any (fun outcome => outcome.line?.isSome) = true := by
    obtain ⟨h, hs, hhs⟩ := List.exists_cons_of_ne_nil hsound.hunks_ne_nil
    simp [hhs, anchors, Outcome.line?]
  have hprobe : probe o p s = (⟨p.target, (anchors 0 p.hunks).map .applied, none⟩,
      some (unlines (replaceFrom doc.lines 0 p.hunks) doc.terminated)) := by
    simp only [probe, hdoc, hout, htext, hany, if_true, Document.toText]
  rw [hprobe]
  refine ⟨rfl, status_applied fun a => fuzz_of_mem_anchors, by simp, fun i h hi => ?_, rfl⟩
  have hnonneg : 0 ≤ (declared h : Int) + (0 + ((p.hunks.take i).map Hunk.growth).sum) :=
    place_nonneg hagree (Int.le_refl 0) hi
  refine ⟨_, _, by rw [List.getElem?_map, getElem?_anchors hi]; rfl, rfl, rfl, rfl, ?_⟩
  simp only [Int.zero_add] at hnonneg ⊢
  omega

/-- A text in memory has few enough lines for their numbers to be words. -/
theorem length_lines_lt {t : Text} (h : t.byteLength < Nat.pow 2 63) : (lines t).length < Nat.pow 2 63 :=
  Nat.lt_of_le_of_lt ((length_lines_le t).trans (length_le_byteLength t)) h

/-- A patch that creates its target agrees with a document without lines. -/
theorem agreesFrom_of_createsFile {p : Patch} (hsound : p.Sound) (h : p.createsFile = true) :
    AgreesFrom [] 0 p.hunks := by
  simp only [Patch.createsFile, Hunk.createsFile, Bool.and_eq_true, List.all_eq_true, beq_iff_eq] at h
  obtain ⟨-, h⟩ := h
  have hcounted := hsound.counted
  generalize p.hunks = hs at h hcounted
  induction hs with
  | nil => exact Nat.le_refl 0
  | cons k ks ih =>
    obtain ⟨hstart, hlen⟩ := h k List.mem_cons_self
    have hbefore : k.before = [] := by
      rw [← List.length_eq_zero_iff, (hcounted k List.mem_cons_self).before, hlen]
    have hdeclared : declared k = 0 := by simp [declared, hstart, hlen]
    refine ⟨Nat.zero_le _, by simp [hbefore], ?_⟩
    rw [hdeclared, hlen]
    exact ih (fun g hg => h g (List.mem_cons_of_mem k hg)) fun g hg => hcounted g (List.mem_cons_of_mem k hg)

/-- **A patch that agrees with its target applies as declared**, whatever the options: to the lines of a source, or to
    no lines where the patch creates its target. A text in memory has fewer than `2 ^ 63` bytes. -/
theorem probe_agrees {o : Options} {diff : Text} {strip : Nat} {ps : List Patch} {p : Patch} {s : Store}
    (hps : parseAll diff strip = .ok ps) (hp : p ∈ ps) :
    (∀ t, (s.find? p.target).map (·.content) = some (.source t) → t.byteLength < Nat.pow 2 63 →
        Agrees (lines t) p.hunks → AppliesAsDeclared (.ofText t) p (probe o p s))
      ∧ (s.find? p.target = none → p.createsFile = true → AppliesAsDeclared ⟨[], true⟩ p (probe o p s)) := by
  have hsound := sound_of_parseAll hps p hp
  constructor
  · intro t hfind hfit hagree
    obtain ⟨⟨k, content⟩, hk, rfl⟩ := Option.map_eq_some_iff.1 hfind
    have hdoc : targetOf p s = .ok (.ofText t) := by simp only [targetOf, hk]
    have hlen : (lines t).length < Nat.pow 2 63 :=
      Nat.lt_of_le_of_lt ((length_lines_le t).trans (length_le_byteLength t)) hfit
    obtain ⟨h, hs, hhs⟩ := List.exists_cons_of_ne_nil hsound.hunks_ne_nil
    have hfrom : AgreesFrom (lines t) 0 p.hunks := by
      rw [hhs] at hagree ⊢
      exact hagree.agreesFrom (Nat.zero_le _)
    exact probe_of_agreesFrom hsound hdoc hlen hfrom
  · intro hfind hcreates
    have hdoc : targetOf p s = .ok ⟨[], true⟩ := by simp only [targetOf, hfind, hcreates, if_true]
    exact probe_of_agreesFrom hsound hdoc (by decide) (agreesFrom_of_createsFile hsound hcreates)

/-- Two hunks with a line between them; the second one stands a line later than it declares. -/
theorem probe_agrees_moved :
    ∃ (s : Store) (t : Text) (ps : List Patch) (p : Patch),
      parseAll (text "--- a/F\n+++ b/F\n@@ -1,2 +1,3 @@\n 1\n+1a\n 2\n@@ -4,1 +5,0 @@\n-4\n") 1 = .ok ps ∧ p ∈ ps
        ∧ (s.find? p.target).map (·.content) = some (.source t) ∧ t = text "1\n2\n3\n4"
        ∧ t.byteLength < Nat.pow 2 63 ∧ Agrees (lines t) p.hunks
        ∧ AppliesAsDeclared (.ofText t) p (probe ⟨.exact, 0, false⟩ p s) := by
  let key : Key := ⟨text "F", by decide, by decide⟩
  let first : Hunk := ⟨⟨1, 2⟩, ⟨1, 3⟩, [⟨.context, text "1"⟩, ⟨.add, text "1a"⟩, ⟨.context, text "2"⟩]⟩
  let second : Hunk := ⟨⟨4, 1⟩, ⟨5, 0⟩, [⟨.remove, text "4"⟩]⟩
  have hps : parseAll (text "--- a/F\n+++ b/F\n@@ -1,2 +1,3 @@\n 1\n+1a\n 2\n@@ -4,1 +5,0 @@\n-4\n") 1
      = .ok [⟨key, [first, second]⟩] := by decide +kernel
  have hfind : ((Store.empty.set key (.source (text "1\n2\n3\n4"))).find? key).map (·.content)
      = some (.source (text "1\n2\n3\n4")) := by decide
  have hfit : (text "1\n2\n3\n4").byteLength < Nat.pow 2 63 := by decide
  have hagree : Agrees (lines (text "1\n2\n3\n4")) [first, second] := ⟨by decide, by decide, by decide⟩
  exact ⟨_, _, _, _, hps, List.mem_cons_self, hfind, rfl, hfit, hagree,
    (probe_agrees hps List.mem_cons_self).1 _ hfind hfit hagree⟩

end JavaMend.Diff
