import JavaMend.Proofs.Diff.Parsed
import Mathlib.Data.List.TakeWhile

/-!
# `Proofs.Diff.Rendering` — a rendered diff is read back

Patches are rendered with the customary first segments `a/` and `b/` and with both lengths in every hunk header. Reading
the result, with one segment dropped, gives the patches back. What a line means is settled by the running counts
alone: a removed line `-- x` in front of an added line `++ y` looks like the opening of a section, and is read as a part
of its hunk, since the counts are not reached yet.

## Contents
- **Rendering.** `LineKind.mark`, `HunkLine.render`, `Range.render`, `Hunk.render`, `Patch.render`, `render`.
- **What can be rendered.** `Hunk.Writable`, `Patch.Writable`.
- **Lines.** `isLine_render`.
- **Headers.** `hunkRanges_header`, `sectionHeader?_render`, `sectionTarget_render`.
- **Hunks.** `readBody_render`, `Follows.hunk`, `Follows.patch`, `readHunk_render`.
- **Sections.** `sections_hunks`, `sections_render`; `parseAll_render`.
-/

namespace JavaMend.Diff

open JavaMend Text

/-! ## Rendering -/

/-- The character that a line of a kind starts with. -/
def LineKind.mark : LineKind → Char
  | context => ' '
  | remove  => '-'
  | add     => '+'

/-- A line of a hunk behind the mark of its kind. -/
def HunkLine.render (l : HunkLine) : Text := l.kind.mark :: l.text

/-- A range with its length, also where that is 1. -/
def Range.render (r : Range) : Text := ofNat r.start ++ ',' :: ofNat r.length

/-- The line that opens a hunk. -/
def Hunk.header (h : Hunk) : Text := text "@@ -" ++ (h.old.render ++ (text " +" ++ (h.new.render ++ text " @@")))

/-- The lines of a hunk. -/
def Hunk.render (h : Hunk) : List Text := h.header :: h.lines.map HunkLine.render

/-- The lines of a section. -/
def Patch.render (p : Patch) : List Text :=
  (text "--- " ++ (text "a/" ++ p.target.text)) :: (text "+++ " ++ (text "b/" ++ p.target.text))
    :: p.hunks.flatMap Hunk.render

/-- A diff of the patches, every line ended by `\n`. -/
def render (ps : List Patch) : Text := (ps.flatMap Patch.render).flatMap fun l => l ++ ['\n']

/-! ## What can be rendered -/

/-- **A hunk that can be rendered**: its images are as long as declared, its lines are lines, and its numbers fit. -/
structure Hunk.Writable (h : Hunk) : Prop where
  counted : h.Counted
  lines : ∀ l ∈ h.lines, IsLine l.text
  old_start : h.old.start < Nat.pow 2 64
  old_length : h.old.length < Nat.pow 2 64
  new_start : h.new.start < Nat.pow 2 64
  new_length : h.new.length < Nat.pow 2 64

/-- **A patch that can be rendered**: a header keeps its target, and it has hunks, all of which can be rendered. -/
structure Patch.Writable (p : Patch) : Prop where
  tab : '\t' ∉ p.target.text
  line : IsLine p.target.text
  last : ∀ c ∈ p.target.text.getLast?, isBlank c = false
  hunks_ne_nil : p.hunks ≠ []
  hunks : ∀ h ∈ p.hunks, h.Writable

/-! ## Lines -/

theorem isLine_append {s t : Text} (hs : IsLine s) (ht : IsLine t) : IsLine (s ++ t) := by
  simp only [IsLine, List.mem_append, not_or]
  exact ⟨⟨hs.1, ht.1⟩, hs.2, ht.2⟩

theorem isLine_ofNat (n : Nat) : IsLine (ofNat n) :=
  ⟨fun h => absurd (isAsciiDigit_of_mem_ofNat h) (by decide), fun h => absurd (isAsciiDigit_of_mem_ofNat h) (by decide)⟩

theorem isLine_range (r : Range) : IsLine r.render := by
  have hcomma : IsLine [','] := by decide
  exact isLine_append (isLine_ofNat _) (isLine_append hcomma (isLine_ofNat _))

theorem isLine_header (h : Hunk) : IsLine h.header := by
  have hmarks : IsLine (text "@@ -") ∧ IsLine (text " +") ∧ IsLine (text " @@") := by decide
  exact isLine_append hmarks.1 (isLine_append (isLine_range _) (isLine_append hmarks.2.1
    (isLine_append (isLine_range _) hmarks.2.2)))

theorem isLine_hunkLine {l : HunkLine} (h : IsLine l.text) : IsLine l.render := by
  have hmark : IsLine [l.kind.mark] := by cases l.kind <;> decide
  exact isLine_append hmark h

/-- No rendered line holds a terminator. -/
theorem isLine_render {ps : List Patch} (hw : ∀ p ∈ ps, p.Writable) {l : Text} (hl : l ∈ ps.flatMap Patch.render) :
    IsLine l := by
  obtain ⟨p, hp, hl⟩ := List.mem_flatMap.1 hl
  have hmarks : IsLine (text "--- ") ∧ IsLine (text "a/") ∧ IsLine (text "+++ ") ∧ IsLine (text "b/") := by decide
  rcases List.mem_cons.1 hl with rfl | hl
  · exact isLine_append hmarks.1 (isLine_append hmarks.2.1 (hw p hp).line)
  rcases List.mem_cons.1 hl with rfl | hl
  · exact isLine_append hmarks.2.2.1 (isLine_append hmarks.2.2.2 (hw p hp).line)
  obtain ⟨h, hh, hl⟩ := List.mem_flatMap.1 hl
  rcases List.mem_cons.1 hl with rfl | hl
  · exact isLine_header h
  obtain ⟨e, he, rfl⟩ := List.mem_map.1 hl
  exact isLine_hunkLine (((hw p hp).hunks h hh).lines e he)

/-! ## Headers -/

@[simp] theorem dropPrefix?_append (p t : Text) : dropPrefix? p (p ++ t) = some t := dropPrefix?_eq_some.2 rfl

/-- The text goes on with a character that is no digit. -/
def EndsDigits (t : Text) : Prop := ∃ c r, t = c :: r ∧ isSettledDigit c = false

/-- Digits are taken up to what is none. -/
theorem takeDigits?_ofNat (n : Nat) {rest : Text} (hrest : EndsDigits rest) :
    takeDigits? (ofNat n ++ rest) = some (ofNat n, rest) := by
  obtain ⟨c, r, rfl, hc⟩ := hrest
  have hdigits : ∀ d ∈ ofNat n, isSettledDigit d = true :=
    fun d hd => isSettledDigit_of_ascii (isAsciiDigit_of_mem_ofNat hd)
  have hc' : ¬ isSettledDigit c = true := by simp [hc]
  simp only [takeDigits?, List.takeWhile_append_of_pos hdigits, List.dropWhile_append_of_pos hdigits,
    List.takeWhile_cons_of_neg hc', List.dropWhile_cons_of_neg hc', List.append_nil, List.isEmpty_iff, ofNat_ne_nil,
    if_false]

/-- The digits of a range are found where it was rendered. -/
theorem takeRange?_render (r : Range) (rest : Text) (hrest : EndsDigits rest) :
    takeRange? (r.render ++ rest) = some ((ofNat r.start, some (ofNat r.length)), rest) := by
  have hcomma : EndsDigits (',' :: (ofNat r.length ++ rest)) := ⟨_, _, rfl, by decide +kernel⟩
  simp only [takeRange?, Range.render, List.append_assoc, List.cons_append, takeDigits?_ofNat _ hcomma,
    takeDigits?_ofNat _ hrest, Option.bind_eq_bind, Option.bind_some, Option.pure_def]

/-- The digits of both ranges are found in a rendered header. -/
theorem takeRanges?_header (h : Hunk) :
    takeRanges? h.header = some ((ofNat h.old.start, some (ofNat h.old.length)),
      (ofNat h.new.start, some (ofNat h.new.length))) := by
  have hspace : isSettledDigit ' ' = false := by decide +kernel
  have hold := takeRange?_render h.old (text " +" ++ (h.new.render ++ text " @@")) ⟨_, _, rfl, hspace⟩
  have hnew := takeRange?_render h.new (text " @@") ⟨_, _, rfl, hspace⟩
  have hend : dropPrefix? (text " @@") (text " @@") = some [] := rfl
  simp only [takeRanges?, Hunk.header, dropPrefix?_append, hold, hnew, hend, Option.bind_eq_bind, Option.bind_some,
    Option.pure_def]

theorem toRange?_digits {r : Range} (hs : r.start < Nat.pow 2 64) (hl : r.length < Nat.pow 2 64) :
    toRange? (ofNat r.start, some (ofNat r.length)) = some r := by
  simp only [toRange?, readWord?_ofNat hs, readWord?_ofNat hl, Option.bind_eq_bind, Option.bind_some, Option.pure_def]

/-- **A rendered header declares the ranges of its hunk.** -/
theorem hunkRanges_header {h : Hunk} (hw : h.Writable) : hunkRanges h.header = .ok (h.old, h.new) := by
  simp only [hunkRanges, takeRanges?_header, toRange?_digits hw.old_start hw.old_length,
    toRange?_digits hw.new_start hw.new_length]

/-- The first two lines of a rendered section open it. -/
theorem sectionHeader?_render (old new : Text) (ls : List Text) :
    sectionHeader? (text "--- " ++ old) ((text "+++ " ++ new) :: ls) = some (old, new) := by
  simp only [sectionHeader?, dropPrefix?_append, List.head?_cons, Option.bind_eq_bind, Option.bind_some, Option.pure_def]

/-- A line that starts with `@@` opens no section. -/
theorem sectionHeader?_header (h : Hunk) (ls : List Text) : sectionHeader? h.header ls = none := rfl

/-- A text whose last character is no white space has none to be dropped at its end. -/
theorem trimEnd_eq_self {t : Text} (h : ∀ c ∈ t.getLast?, isBlank c = false) : trimEnd t = t := by
  rw [← List.head?_reverse] at h
  have hdrop : t.reverse.dropWhile isBlank = t.reverse := by
    cases ht : t.reverse with
    | nil => rfl
    | cons c r => simp [h c (by simp [ht])]
  rw [trimEnd, hdrop, List.reverse_reverse]

/-- A header keeps a path that starts with a name and ends without white space. -/
theorem headerPath_prefixed {t : Text} (htab : '\t' ∉ t) (hlast : ∀ c ∈ t.getLast?, isBlank c = false) :
    headerPath ('b' :: '/' :: t) = 'b' :: '/' :: t := by
  have hstart : trimStart ('b' :: '/' :: t) = 'b' :: '/' :: t := List.dropWhile_cons_of_neg (by decide)
  have htake : ('b' :: '/' :: t).takeWhile (· != '\t') = 'b' :: '/' :: t := by
    refine List.takeWhile_eq_self_iff.2 fun c hc => bne_iff_ne.2 ?_
    rintro rfl
    simp [htab] at hc
  rw [headerPath, hstart, htake]
  refine trimEnd_eq_self fun c hc => ?_
  cases t with
  | nil =>
    obtain rfl : '/' = c := by simpa using hc
    decide
  | cons d t => exact hlast c (by simpa using hc)

/-- The text of a key holds no backslash. -/
theorem backslash_not_mem_key (k : Key) : '\\' ∉ k.text := by
  intro hc
  rw [← k.isNormal] at hc
  rcases mem_joinWith hc with hc | ⟨s, hs, hc⟩
  · simp at hc
  · exact (Key.mem_segments hs).2.2 hc

/-- Without its first segment, the path in a rendered header is that of the target. -/
theorem stripped_prefixed (k : Key) : stripped (text "b/" ++ k.text) 1 = k.text := by
  rw [stripped, List.map_append, Key.map_slash_of_not_mem (backslash_not_mem_key k)]
  rfl

/-- **A rendered header names the target of its patch.** -/
theorem sectionTarget_render {p : Patch} (hw : p.Writable) (line : Nat) (old : Text) :
    sectionTarget 1 line old (text "b/" ++ p.target.text) = .ok p.target := by
  have hpath : headerPath (text "b/" ++ p.target.text) = text "b/" ++ p.target.text :=
    headerPath_prefixed hw.tab hw.last
  have hne : text "b/" ++ p.target.text ≠ text "/dev/null" := fun h =>
    absurd (show some 'b' = some '/' from congrArg List.head? h) (by decide)
  simp only [sectionTarget, hpath, hne, if_false, stripped_prefixed, Key.ofPath?_text]

/-! ## Hunks -/

theorem bodyLine_render (l : HunkLine) : BodyLine.of? l.render = some (.edit l) := by
  obtain ⟨kind, t⟩ := l
  cases kind <;> rfl

/-- **Rendered lines are read up to the declared counts**, whatever follows: every line raises a count, so none is
    left, and none too many is taken. -/
theorem readBody_render {oldLength newLength old new : Nat} {es : List HunkLine} (rest : List Text)
    (hold : old + es.countP (fun l => l.kind != .add) = oldLength)
    (hnew : new + es.countP (fun l => l.kind != .remove) = newLength) :
    readBody oldLength newLength old new (es.map HunkLine.render ++ rest) = (es, rest) := by
  induction es generalizing old new with
  | nil =>
    simp only [List.countP_nil, Nat.add_zero] at hold hnew
    have hreached : ¬ (old < oldLength ∨ new < newLength) := by omega
    cases rest with
    | nil => rfl
    | cons l ls => simp only [List.map_nil, List.nil_append, readBody, if_neg hreached]
  | cons e es ih =>
    have hcounts : old + e.kind.oldCount + es.countP (fun l => l.kind != .add) = oldLength
        ∧ new + e.kind.newCount + es.countP (fun l => l.kind != .remove) = newLength
        ∧ (old < oldLength ∨ new < newLength) := by
      cases hk : e.kind <;>
        simp only [List.countP_cons, hk, LineKind.oldCount, LineKind.newCount] at hold hnew ⊢ <;>
        simp at hold hnew <;> omega
    obtain ⟨hold', hnew', hopen⟩ := hcounts
    simp only [List.map_cons, List.cons_append, readBody, if_pos hopen, bodyLine_render, ih hold' hnew']

theorem Follows.nil : Follows [] := ⟨rfl, rfl⟩

/-- The opening of a section can follow a hunk, although it starts like a removed line. -/
theorem Follows.patch (p : Patch) (ls : List Text) : Follows (p.render ++ ls) where
  remark := rfl
  overrun := by
    rw [Patch.render, List.cons_append, List.cons_append, overruns, sectionHeader?_render]
    rfl

theorem Follows.hunk (h : Hunk) (ls : List Text) : Follows (h.render ++ ls) := ⟨rfl, rfl⟩

theorem Follows.patches (ps : List Patch) : Follows (ps.flatMap Patch.render) := by
  cases ps with
  | nil => exact .nil
  | cons p ps => exact .patch p _

theorem Follows.hunks {rest : List Text} (hrest : Follows rest) (hs : List Hunk) :
    Follows (hs.flatMap Hunk.render ++ rest) := by
  cases hs with
  | nil => exact hrest
  | cons h hs =>
    rw [List.flatMap_cons, List.append_assoc]
    exact .hunk h _

/-- **A rendered hunk is read back.** -/
theorem readHunk_render {h : Hunk} (hw : h.Writable) {rest : List Text} (hrest : Follows rest) :
    readHunk h.header (h.lines.map HunkLine.render ++ rest) = .ok (h, rest) := by
  have hbody : readBody h.old.length h.new.length 0 0 (h.lines.map HunkLine.render ++ rest) = (h.lines, rest) :=
    readBody_render rest (by rw [Nat.zero_add, ← length_before, hw.counted.before])
      (by rw [Nat.zero_add, ← length_after, hw.counted.after])
  have hhunk : (⟨h.old, h.new, h.lines⟩ : Hunk) = h := rfl
  simp only [readHunk, hunkRanges_header hw, bind, Except.bind, hbody, hrest.remark, hrest.overrun, hhunk,
    hw.counted.before, hw.counted.after, ne_eq, not_true_eq_false, Bool.false_eq_true, or_self, if_false, pure,
    Except.pure]

/-! ## Sections -/

/-- **Rendered hunks join the open section.** -/
theorem sections_hunks {strip total : Nat} {k : Key} {done hs : List Hunk} {rest : List Text}
    (hw : ∀ h ∈ hs, h.Writable) (hrest : Follows rest) :
    sections strip total (some ⟨k, done⟩) (hs.flatMap Hunk.render ++ rest)
      = sections strip total (some ⟨k, done ++ hs⟩) rest := by
  induction hs generalizing done with
  | nil => simp
  | cons h hs ih =>
    have hread := readHunk_render (hw h List.mem_cons_self) (hrest.hunks hs)
    have hat : startsWith (text "@@") h.header = true := rfl
    rw [List.flatMap_cons, List.append_assoc, Hunk.render, List.cons_append, sections]
    simp only [sectionHeader?_header, hat, if_true]
    split
    · rename_i defect herror
      rw [hread] at herror
      cases herror
    · rename_i hunk later hok
      rw [hread] at hok
      cases hok
      rw [ih fun g hg => hw g (List.mem_cons_of_mem h hg), List.append_assoc, List.singleton_append]

/-- **Rendered sections are read in order**, after the open one. -/
theorem sections_render {total : Nat} {current : Option Patch} {ps : List Patch}
    (hc : ∀ p ∈ current, p.hunks ≠ []) (hw : ∀ p ∈ ps, p.Writable) :
    sections 1 total current (ps.flatMap Patch.render) = .ok (current.toList ++ ps) := by
  have hclose : ∀ line, close line current = .ok current.toList := by
    intro line
    cases current with
    | none => rfl
    | some p => simp [close, hc p rfl]
  induction ps generalizing current with
  | nil => rw [List.flatMap_nil, sections.eq_def, List.append_nil]; exact hclose total
  | cons p ps ih =>
    have hp := hw p List.mem_cons_self
    have hsome : ∀ q ∈ some p, q.hunks ≠ [] := by
      rintro q ⟨⟩
      exact hp.hunks_ne_nil
    have hlater : sections 1 total (some ⟨p.target, []⟩) (p.hunks.flatMap Hunk.render ++ ps.flatMap Patch.render)
        = .ok (p :: ps) := by
      rw [sections_hunks hp.hunks (.patches ps), List.nil_append]
      exact ih hsome (fun q hq => hw q (List.mem_cons_of_mem p hq)) fun line => by simp [close, hp.hunks_ne_nil]
    rw [List.flatMap_cons, Patch.render, List.cons_append, List.cons_append, sections.eq_def]
    simp only [sectionHeader?_render, hclose, sectionTarget_render hp, List.tail_cons, hlater, bind, Except.bind, pure,
      Except.pure]

/-- **Reading what was rendered gives the patches back.** -/
theorem parseAll_render {ps : List Patch} (hne : ps ≠ []) (hw : ∀ p ∈ ps, p.Writable) :
    parseAll (render ps) 1 = .ok ps := by
  have hlines : lines (render ps) = ps.flatMap Patch.render :=
    lines_terminated fun l hl => isLine_render hw hl
  have hsections : sections 1 (ps.flatMap Patch.render).length none (ps.flatMap Patch.render) = .ok ps :=
    sections_render (by simp) hw
  simp only [parseAll, hlines, hsections, bind, Except.bind, List.isEmpty_iff, hne, if_false, pure, Except.pure]

/-- Two sections; in the first one a removed line and an added line look like the opening of a section. -/
theorem parseAll_render_disguised :
    ∃ ps : List Patch, ps ≠ [] ∧ (∀ p ∈ ps, p.Writable) ∧
      render ps = text "--- a/F\n+++ b/F\n@@ -1,2 +1,2 @@\n--- x\n+++ y\n \n@@ -5,0 +5,0 @@\n"
        ++ text "--- a/G H\n+++ b/G H\n@@ -0,0 +1,1 @@\n+\\\n"
        ∧ parseAll (render ps) 1 = .ok ps := by
  let first : Patch := ⟨⟨text "F", by decide, by decide⟩,
    [⟨⟨1, 2⟩, ⟨1, 2⟩, [⟨.remove, text "-- x"⟩, ⟨.add, text "++ y"⟩, ⟨.context, []⟩]⟩, ⟨⟨5, 0⟩, ⟨5, 0⟩, []⟩]⟩
  let second : Patch := ⟨⟨text "G H", by decide, by decide⟩, [⟨⟨0, 0⟩, ⟨1, 1⟩, [⟨.add, text "\\"⟩]⟩]⟩
  have hlast {t : Text} {c : Char} (ht : t.getLast? = some c) (hc : isBlank c = false) :
      ∀ c ∈ t.getLast?, isBlank c = false := by
    rintro c' h'
    obtain rfl : c = c' := Option.some.inj (ht.symm.trans h')
    exact hc
  have hfirst : first.Writable := by
    refine ⟨by decide, by decide, hlast rfl (by decide), by decide, ?_⟩
    simp only [first, List.mem_cons, List.not_mem_nil, or_false, forall_eq_or_imp, forall_eq]
    exact ⟨⟨⟨by decide, by decide⟩, by decide, by decide, by decide, by decide, by decide⟩,
      ⟨⟨by decide, by decide⟩, by decide, by decide, by decide, by decide, by decide⟩⟩
  have hsecond : second.Writable := by
    refine ⟨by decide, by decide, hlast rfl (by decide), by decide, ?_⟩
    simp only [second, List.mem_singleton, forall_eq]
    exact ⟨⟨by decide, by decide⟩, by decide, by decide, by decide, by decide, by decide⟩
  have hw : ∀ p ∈ [first, second], p.Writable := by simp [hfirst, hsecond]
  exact ⟨[first, second], by simp, hw, by decide, parseAll_render (by simp) hw⟩

end JavaMend.Diff
