import JavaMend.Proofs.Diff.Agreement
import JavaMend.Proofs.Diff.Applied
import JavaMend.Proofs.Diff.LineTexts

/-!
# `Proofs.Diff.Reversal` — a patch that is taken back

A patch read backwards removes what it added and adds what it removed, with the ranges of its hunks exchanged. If a patch
is well formed for a document, the reversed patch agrees with the document that results, and replacing its ranges at once
gives the first document back.

The proof is one induction over the hunks, in the terms of `applyHunks_front`: behind a finished front of `pos + delta`
lines the result reads `replaceFrom doc pos hs`, and the reversed hunks turn this into `doc.drop pos` (`reversed_front`).

## Contents
- **Reversed patches.** `Hunk.reversed` with `before_reversed`, `after_reversed`; `Patch.reversed`, `Patch.Sound.reversed`.
- **Well-formed patches.** `WellFormed`, its recursive form `ReversesFrom`, and `WellFormed.reversesFrom`.
- **Documents.** `reversed_front`, `WellFormed.reversed`; `mem_replaceFrom`, `isLine_of_mem_replaceFrom`.
- **Texts.** `ofText_of_ends`, `unlines_lines_of_ends`, `ofText_unlines`.
- **Stores.** `Report.Exact`, `apply_of_applies`; `apply_reversed`.
-/

namespace JavaMend.Diff

open JavaMend Text

/-! ## Reversed patches -/

/-- Read backwards, a removed line is added and an added one removed. -/
def LineKind.reversed : LineKind → LineKind
  | context => context
  | remove  => add
  | add     => remove

/-- The line with its kind reversed. -/
def HunkLine.reversed (l : HunkLine) : HunkLine := ⟨l.kind.reversed, l.text⟩

/-- The hunk that leads from the after image to the before image. -/
def Hunk.reversed (h : Hunk) : Hunk := ⟨h.new, h.old, h.lines.map HunkLine.reversed⟩

/-- The patch that takes a patch back. -/
def Patch.reversed (p : Patch) : Patch := ⟨p.target, p.hunks.map Hunk.reversed⟩

theorem before_reversed (h : Hunk) : h.reversed.before = h.after := by
  have hkind (l : HunkLine) : (l.reversed.kind != .add) = (l.kind != .remove) := by
    obtain ⟨kind, t⟩ := l
    cases kind <;> rfl
  simp only [Hunk.before, Hunk.after, Hunk.reversed, List.filter_map, List.map_map, Function.comp_def, hkind]
  rfl

theorem after_reversed (h : Hunk) : h.reversed.after = h.before := by
  have hkind (l : HunkLine) : (l.reversed.kind != .remove) = (l.kind != .add) := by
    obtain ⟨kind, t⟩ := l
    cases kind <;> rfl
  simp only [Hunk.before, Hunk.after, Hunk.reversed, List.filter_map, List.map_map, Function.comp_def, hkind]
  rfl

theorem Hunk.Counted.reversed {h : Hunk} (hc : h.Counted) : h.reversed.Counted where
  before := (congrArg List.length (before_reversed h)).trans hc.after
  after := (congrArg List.length (after_reversed h)).trans hc.before

theorem Patch.Sound.reversed {p : Patch} (hp : p.Sound) : p.reversed.Sound where
  hunks_ne_nil := by simpa [Patch.reversed] using hp.hunks_ne_nil
  counted := by
    intro k hk
    obtain ⟨h, hh, rfl⟩ := List.mem_map.1 hk
    exact (hp.counted h hh).reversed

/-! ## Well-formed patches -/

/-- **A patch is well formed for a document** if it agrees with it and every hunk declares where its after image will
    stand: at the line it declares, moved by the growth of the hunks before it. Like an empty before image, an empty
    after image names the line before it. -/
structure WellFormed (doc : List Text) (hs : List Hunk) : Prop extends Agrees doc hs where
  newStart : ∀ i h, hs[i]? = some h → (h.new.start : Int) =
    declared h + ((hs.take i).map Hunk.growth).sum + if 0 < h.new.length then 1 else 0

/-- In a document that has grown by `delta`, the reversed hunks declare the places to which the hunks have moved. -/
def ReversesFrom (delta : Int) : List Hunk → Prop
  | []      => True
  | h :: hs => (declared h.reversed : Int) = declared h + delta ∧ ReversesFrom (delta + h.growth) hs

theorem declared_reversed (h : Hunk) :
    declared h.reversed = if h.new.length = 0 then h.new.start else h.new.start - 1 := rfl

/-- A hunk takes no more lines away than its range holds. -/
theorem neg_length_le_growth (h : Hunk) : -(h.old.length : Int) ≤ h.growth := by
  unfold Hunk.growth
  omega

/-- What the hunks declare of their after images is where the reversed hunks look for them. -/
theorem reversesFrom_of_newStart {doc : List Text} {pos : Nat} {delta : Int} {hs : List Hunk}
    (hagree : AgreesFrom doc pos hs) (hdelta : 0 ≤ pos + delta)
    (hnew : ∀ i h, hs[i]? = some h → (h.new.start : Int) =
      declared h + (delta + ((hs.take i).map Hunk.growth).sum) + if 0 < h.new.length then 1 else 0) :
    ReversesFrom delta hs := by
  induction hs generalizing pos delta with
  | nil => trivial
  | cons h hs ih =>
    obtain ⟨hpos, -, hrest⟩ := hagree
    have hgrowth := neg_length_le_growth h
    refine ⟨?_, ih hrest (by omega) fun i k hk => ?_⟩
    · have hstart := hnew 0 h rfl
      simp only [List.take_zero, List.map_nil, List.sum_nil] at hstart
      rw [declared_reversed]
      by_cases hempty : h.new.length = 0
      · rw [if_neg (by omega)] at hstart
        rw [if_pos hempty]
        omega
      · rw [if_pos (by omega)] at hstart
        rw [if_neg hempty]
        omega
    · have hstart := hnew (i + 1) k hk
      rwa [List.take_succ_cons, List.map_cons, List.sum_cons, ← Int.add_assoc delta] at hstart

theorem WellFormed.reversesFrom {doc : List Text} {hs : List Hunk} (h : WellFormed doc hs)
    (hagree : AgreesFrom doc 0 hs) : ReversesFrom 0 hs :=
  reversesFrom_of_newStart hagree (Int.le_refl 0) (by simpa only [Int.zero_add] using h.newStart)

/-! ## Documents -/

/-- The lines up to a range, the range, and the lines behind it. -/
theorem take_append_range {doc : List Text} {pos start : Nat} (h : pos ≤ start) (length : Nat) :
    (doc.drop pos).take (start - pos) ++ (doc.drop start).take length ++ doc.drop (start + length) = doc.drop pos := by
  have hstart : doc.drop start = (doc.drop pos).drop (start - pos) := by
    rw [List.drop_drop, Nat.add_sub_cancel' h]
  rw [List.append_assoc, ← List.drop_drop, List.take_append_drop, hstart, List.take_append_drop]

/-- **The reversed hunks agree with the result and take it back.** Behind the front they find their after images, and
    what they leave is the rest of the document. -/
theorem reversed_front {doc front : List Text} {pos : Nat} {delta : Int} {hs : List Hunk}
    (hc : ∀ h ∈ hs, h.Counted) (hagree : AgreesFrom doc pos hs) (hreverses : ReversesFrom delta hs)
    (hdelta : (front.length : Int) = pos + delta) :
    AgreesFrom (front ++ replaceFrom doc pos hs) front.length (hs.map Hunk.reversed)
      ∧ replaceFrom (front ++ replaceFrom doc pos hs) front.length (hs.map Hunk.reversed) = doc.drop pos := by
  induction hs generalizing front pos delta with
  | nil => simp [AgreesFrom, replaceFrom]
  | cons h hs ih =>
    obtain ⟨hpos, hstands, hrest⟩ := hagree
    obtain ⟨hplace, hreverses⟩ := hreverses
    have hcount := hc h List.mem_cons_self
    have hend := hrest.le_length
    obtain ⟨mid, hmid⟩ : ∃ mid, mid = (doc.drop pos).take (declared h - pos) := ⟨_, rfl⟩
    obtain ⟨rest, hrestdoc⟩ : ∃ rest, rest = replaceFrom doc (declared h + h.old.length) hs := ⟨_, rfl⟩
    have hmidlen : mid.length = declared h - pos := by
      rw [hmid, List.length_take, List.length_drop]
      omega
    have hresult : front ++ replaceFrom doc pos (h :: hs) = front ++ mid ++ h.after ++ rest := by
      rw [replaceFrom, hmid, hrestdoc]
      simp only [List.append_assoc]
    -- The reversed hunk is declared behind the front and the lines up to the range; these and its before image are the
    -- front of the rest.
    have hdeclared : declared h.reversed = front.length + mid.length := by omega
    have hnext : declared h.reversed + h.reversed.old.length = (front ++ mid ++ h.after).length := by
      rw [List.length_append, List.length_append, hdeclared, hcount.after]
      rfl
    have hfront : ((front ++ mid ++ h.after).length : Int)
        = (declared h + h.old.length : Nat) + (delta + h.growth) := by
      rw [List.length_append, List.length_append, hcount.after, Hunk.growth]
      omega
    obtain ⟨hagree', hreplace'⟩ := ih (fun k hk => hc k (List.mem_cons_of_mem h hk)) hrest hreverses hfront
    rw [← hrestdoc] at hagree' hreplace'
    rw [hresult, List.map_cons]
    constructor
    · refine ⟨by omega, ?_, hnext ▸ hagree'⟩
      rw [before_reversed, hdeclared, ← List.length_append, List.append_assoc (front ++ mid), List.drop_left]
      exact List.take_left' hcount.after
    · have hkept : ((front ++ mid ++ h.after ++ rest).drop front.length).take (declared h.reversed - front.length)
          = mid := by
        rw [hdeclared, Nat.add_sub_cancel_left, List.append_assoc, List.append_assoc, List.drop_left, List.take_left]
      calc replaceFrom (front ++ mid ++ h.after ++ rest) front.length (h.reversed :: hs.map Hunk.reversed)
        _ = mid ++ h.before ++ doc.drop (declared h + h.old.length) := by
          rw [replaceFrom, hkept, after_reversed, hnext, hreplace']
        _ = doc.drop pos := by rw [hmid, ← hstands, take_append_range hpos]

/-- **A well-formed patch and its reversal cancel** on a document: the reversed patch agrees with what the patch makes of
    it, and makes the document of that again. -/
theorem WellFormed.reversed {doc : List Text} {p : Patch} (hp : p.Sound) (h : WellFormed doc p.hunks) :
    AgreesFrom (replaceFrom doc 0 p.hunks) 0 p.reversed.hunks
      ∧ replaceFrom (replaceFrom doc 0 p.hunks) 0 p.reversed.hunks = doc := by
  have hagree := h.toAgrees.agreesFrom_zero
  -- At the first line the front is empty.
  have hfront : (([] : List Text).length : Int) = (0 : Nat) + 0 := rfl
  exact reversed_front hp.counted hagree (h.reversesFrom hagree) hfront

/-- What replaces ranges of a document consists of lines of the document and of after images. -/
theorem mem_replaceFrom {doc : List Text} {pos : Nat} {hs : List Hunk} {l : Text} (hl : l ∈ replaceFrom doc pos hs) :
    l ∈ doc ∨ ∃ h ∈ hs, l ∈ h.after := by
  induction hs generalizing pos with
  | nil => exact .inl (List.mem_of_mem_drop hl)
  | cons h hs ih =>
    simp only [replaceFrom, List.mem_append] at hl
    rcases hl with (hl | hl) | hl
    · exact .inl (List.mem_of_mem_drop (List.mem_of_mem_take hl))
    · exact .inr ⟨h, List.mem_cons_self, hl⟩
    · rcases ih hl with hl | ⟨k, hk, hl⟩
      · exact .inl hl
      · exact .inr ⟨k, List.mem_cons_of_mem h hk, hl⟩

theorem isLine_of_mem_replaceFrom {p : Patch} (hp : p.Lined) {doc : List Text} (hdoc : ∀ l ∈ doc, IsLine l) {pos : Nat} :
    ∀ l ∈ replaceFrom doc pos p.hunks, IsLine l := by
  intro l hl
  rcases mem_replaceFrom hl with hl | ⟨h, hh, hl⟩
  · exact hdoc l hl
  · exact isLine_of_mem_after hp hh hl

/-! ## Texts -/

section
variable {t : Text} (hends : t = [] ∨ endsWithNewline t = true)
include hends

/-- The document of a text whose last line is ended has its lines, the last one terminated. -/
theorem ofText_of_ends : Document.ofText t = ⟨lines t, true⟩ := by
  rcases hends with rfl | hends
  · rfl
  · simp [Document.ofText, hends]

/-- Without carriage returns, such a text is its lines, each of them ended. -/
theorem unlines_lines_of_ends (h : '\r' ∉ t) : unlines (lines t) true = t := by
  rcases hends with rfl | hends
  · rfl
  · rw [← hends, unlines_lines h]

end

/-- The document of joined lines has these lines, and its last one is terminated. -/
theorem ofText_unlines {ls : List Text} (h : ∀ l ∈ ls, IsLine l) : Document.ofText (unlines ls true) = ⟨ls, true⟩ := by
  have hends : unlines ls true = [] ∨ endsWithNewline (unlines ls true) = true := by
    rcases eq_or_ne ls [] with rfl | hls
    · exact .inl rfl
    · exact .inr (endsWithNewline_unlines hls)
  rw [ofText_of_ends hends, lines_unlines h]

/-! ## Stores -/

/-- **Every hunk of a patch of `n` hunks is applied as it declares**, and the patch succeeds. -/
structure Report.Exact (r : Report) (n : Nat) : Prop where
  status : r.status = .success
  length : r.outcomes.length = n
  outcomes : ∀ out ∈ r.outcomes, out.status = .success ∧ out.fuzz = 0

theorem AppliesAsDeclared.exact {doc : Document} {p : Patch} {result : Report × Option Text}
    (h : AppliesAsDeclared doc p result) : result.1.Exact p.hunks.length := by
  refine ⟨h.status, h.length, fun out hout => ?_⟩
  obtain ⟨i, hi⟩ := List.mem_iff_getElem?.1 hout
  have hlt : i < p.hunks.length := h.length ▸ (List.getElem?_eq_some_iff.1 hi).1
  obtain ⟨out', line, hi', hstatus, hfuzz, -⟩ := h.outcome i _ (List.getElem?_eq_getElem hlt)
  cases hi.symm.trans hi'
  exact ⟨hstatus, hfuzz⟩

/-- A patch that applies as declared gives the text with all ranges replaced to its target. -/
theorem apply_of_applies {o : Options} {doc : Document} {p : Patch} {s : Store}
    (h : AppliesAsDeclared doc p (probe o p s)) :
    apply o p s = ((probe o p s).1,
      s.set p.target (.source (unlines (replaceFrom doc.lines 0 p.hunks) doc.terminated))) := by
  rw [apply_eq]
  simp [h.text, h.status]

/-- **A patch and its reversal restore the text exactly**, and every hunk of both is applied as it declares, whatever the
    options. Texts in memory have fewer than `2 ^ 63` bytes. -/
theorem apply_reversed {diff t : Text} {strip : Nat} {ps : List Patch} {p : Patch} {s : Store} {o o' : Options}
    (hps : parseAll diff strip = .ok ps) (hp : p ∈ ps)
    (hfind : s.find? p.target = some ⟨p.target, .source t⟩) (hlf : '\r' ∉ t)
    (hends : t = [] ∨ endsWithNewline t = true) (hwf : WellFormed (lines t) p.hunks)
    (hfit : t.byteLength < Nat.pow 2 63) (hfit' : ∀ t' ∈ (probe o p s).2, t'.byteLength < Nat.pow 2 63) :
    ∃ r r' s', apply o p s = (r, s') ∧ apply o' p.reversed s' = (r', s)
      ∧ r.Exact p.hunks.length ∧ r'.Exact p.hunks.length := by
  have hsound := sound_of_parseAll hps p hp
  -- The patch leads to the lines with all ranges replaced, which are the lines of the text that it leaves.
  have hdoc : targetOf p s = .ok ⟨lines t, true⟩ := by simp only [targetOf, hfind, ofText_of_ends hends]
  have happlies : AppliesAsDeclared ⟨lines t, true⟩ p (probe o p s) :=
    probe_of_agreesFrom hsound hdoc (length_lines_lt hfit) hwf.toAgrees.agreesFrom_zero
  have hfirst := apply_of_applies happlies
  obtain ⟨ls, hls⟩ : ∃ ls, ls = replaceFrom (lines t) 0 p.hunks := ⟨_, rfl⟩
  have hlines : ∀ l ∈ ls, IsLine l :=
    hls ▸ isLine_of_mem_replaceFrom (lined_of_parseAll hps p hp) fun _ => not_mem_lines
  -- With these the reversed patch agrees, and it leads to the first lines.
  obtain ⟨hagree', hreplace'⟩ := hwf.reversed hsound
  rw [← hls] at hfirst hagree' hreplace'
  obtain ⟨s', hs'⟩ : ∃ s', s' = s.set p.target (.source (unlines ls true)) := ⟨_, rfl⟩
  have hdoc' : targetOf p.reversed s' = .ok ⟨ls, true⟩ := by
    simp only [targetOf, Patch.reversed, hs', Store.find?_set_self, ofText_unlines hlines]
  have hlength' : ls.length < Nat.pow 2 63 := by
    have htext : (probe o p s).2 = some (unlines ls true) := hls ▸ happlies.text
    have hlength := length_lines_lt (hfit' _ htext)
    rwa [lines_unlines hlines] at hlength
  have happlies' : AppliesAsDeclared ⟨ls, true⟩ p.reversed (probe o' p.reversed s') :=
    probe_of_agreesFrom hsound.reversed hdoc' hlength' hagree'
  have hsecond := apply_of_applies happlies'
  rw [hreplace', unlines_lines_of_ends hends hlf, hs', Patch.reversed, Store.set_set_of_find? hfind] at hsecond
  have hcount : p.reversed.hunks.length = p.hunks.length := List.length_map _
  exact ⟨_, _, s', hs' ▸ hfirst, hs' ▸ hsecond, happlies.exact, hcount ▸ happlies'.exact⟩

/-- A line is added, and behind it one is removed; both are taken back. -/
theorem apply_reversed_moved :
    ∃ (s : Store) (t : Text) (ps : List Patch) (p : Patch),
      parseAll (text "--- a/F\n+++ b/F\n@@ -1,2 +1,3 @@\n 1\n+1a\n 2\n@@ -4,1 +4,0 @@\n-4\n") 1 = .ok ps ∧ p ∈ ps
        ∧ s.find? p.target = some ⟨p.target, .source t⟩ ∧ t = text "1\n2\n3\n4\n" ∧ '\r' ∉ t
        ∧ (t = [] ∨ endsWithNewline t = true) ∧ WellFormed (lines t) p.hunks ∧ t.byteLength < Nat.pow 2 63
        ∧ (∀ t' ∈ (probe ⟨.exact, 0, false⟩ p s).2, t'.byteLength < Nat.pow 2 63)
        ∧ ∃ r r' s', apply ⟨.exact, 0, false⟩ p s = (r, s') ∧ apply ⟨.shifted, 2, true⟩ p.reversed s' = (r', s)
          ∧ r.Exact p.hunks.length ∧ r'.Exact p.hunks.length := by
  let key : Key := ⟨text "F", by decide, by decide⟩
  let first : Hunk := ⟨⟨1, 2⟩, ⟨1, 3⟩, [⟨.context, text "1"⟩, ⟨.add, text "1a"⟩, ⟨.context, text "2"⟩]⟩
  let second : Hunk := ⟨⟨4, 1⟩, ⟨4, 0⟩, [⟨.remove, text "4"⟩]⟩
  let s : Store := Store.empty.set key (.source (text "1\n2\n3\n4\n"))
  have hps : parseAll (text "--- a/F\n+++ b/F\n@@ -1,2 +1,3 @@\n 1\n+1a\n 2\n@@ -4,1 +4,0 @@\n-4\n") 1
      = .ok [⟨key, [first, second]⟩] := by decide +kernel
  have hfind : s.find? key = some ⟨key, .source (text "1\n2\n3\n4\n")⟩ := Store.find?_set_self ..
  have hlf : '\r' ∉ text "1\n2\n3\n4\n" := by decide
  have hends : endsWithNewline (text "1\n2\n3\n4\n") = true := by decide
  have hfit : (text "1\n2\n3\n4\n").byteLength < Nat.pow 2 63 := by decide
  have hwf : WellFormed (lines (text "1\n2\n3\n4\n")) [first, second] :=
    { ordered := by decide
      within := by decide
      stands := by decide
      newStart := fun i h hi => match i with
        | 0 => by cases hi; decide
        | 1 => by cases hi; decide
        | i + 2 => by cases hi }
  have hresult : (probe ⟨.exact, 0, false⟩ ⟨key, [first, second]⟩ s).2 = some (text "1\n1a\n2\n3\n") := by
    decide +kernel
  have hfit' : ∀ t' ∈ (probe ⟨.exact, 0, false⟩ ⟨key, [first, second]⟩ s).2, t'.byteLength < Nat.pow 2 63 := by
    rw [hresult]
    decide
  exact ⟨_, _, _, _, hps, List.mem_cons_self, hfind, rfl, hlf, .inr hends, hwf, hfit, hfit',
    apply_reversed hps List.mem_cons_self hfind hlf (.inr hends) hwf hfit hfit'⟩

end JavaMend.Diff
