import JavaMend.Proofs.Diff.LineTexts
import JavaMend.Proofs.Diff.Rendering

/-!
# `Proofs.Diff.Grammar` — the shape of a diff that is read

The lines of a diff fall into the lines before its first section and the sections; a section consists of its two opening
lines and of hunks with chatter between them. The grammar says so without the counters of the reader: a hunk goes as far
as its images are counted, and no remark or further edit follows it. Whatever is read has this shape
(`goesOn_of_sectionsRead`), and so the patches that come out of a diff are well formed (`wellFormedPatches_of_parseAll`).

## Contents
- **The grammar.** `Spells`, `Hunk.Stands`, `IsChatter`, `HoldsHunks`, `HoldsSections`.
- **Reading.** `spells_readBody`, `stands_of_readHunk`; `GoesOn`, `goesOn_of_sectionsRead`.
- **Well-formed patches.** `WellFormedPatches`; `stands_of_holdsSections`, `wellFormedPatches_of_parseAll`.
-/

namespace JavaMend.Diff

open JavaMend Text

/-! ## The grammar -/

/-- **Lines of a diff spell the lines of a hunk**: each stands behind the mark of its kind, an empty one that is kept
    perhaps without its mark, and remarks may stand between them. -/
inductive Spells : List Text → List HunkLine → Prop where
  | nil : Spells [] []
  | line (e : HunkLine) {ls : List Text} {es : List HunkLine} : Spells ls es → Spells (e.render :: ls) (e :: es)
  | stripped {ls : List Text} {es : List HunkLine} : Spells ls es → Spells ([] :: ls) (⟨.context, []⟩ :: es)
  | remark (t : Text) {ls : List Text} {es : List HunkLine} : Spells ls es → Spells (('\\' :: t) :: ls) es

/-- **A hunk as it stands in a diff**: a header that declares its ranges, and below it the lines of the hunk, as many of
    them as the header declares for either image. -/
structure Hunk.Stands (hunk : Hunk) (header : Text) (body : List Text) : Prop where
  opens : startsWith (text "@@") header = true
  ranges : hunkRanges header = .ok (hunk.old, hunk.new)
  body : Spells body hunk.lines
  counted : hunk.Counted

/-- A line in front of others opens neither a section nor a hunk. -/
structure IsChatter (l : Text) (ls : List Text) : Prop where
  noSection : sectionHeader? l ls = none
  noHunk : ¬ startsWith (text "@@") l = true

/-- **Lines hold hunks**, with chatter before and behind each, up to the next section or the end. -/
inductive HoldsHunks : List Text → List Hunk → List Text → Prop where
  | nil : HoldsHunks [] [] []
  | stop {l : Text} {ls : List Text} : (sectionHeader? l ls).isSome = true → HoldsHunks (l :: ls) [] (l :: ls)
  | chatter {l : Text} {ls rest : List Text} {hs : List Hunk} :
    IsChatter l ls → HoldsHunks ls hs rest → HoldsHunks (l :: ls) hs rest
  | hunk {h : Hunk} {header : Text} {body ls rest : List Text} {hs : List Hunk} :
    h.Stands header body → Follows ls → HoldsHunks ls hs rest → HoldsHunks (header :: (body ++ ls)) (h :: hs) rest

/-- **Lines hold sections**: two lines that name the target, and the hunks of the patch. -/
inductive HoldsSections (strip : Nat) : List Text → List Patch → Prop where
  | nil : HoldsSections strip [] []
  | patch {p : Patch} (old : Text) {new : Text} {ls rest : List Text} {ps : List Patch} :
    headerPath new ≠ text "/dev/null" → p.target.text = stripPath (headerPath new) strip → p.hunks ≠ [] →
    HoldsHunks ls p.hunks rest → HoldsSections strip rest ps →
    HoldsSections strip ((text "--- " ++ old) :: (text "+++ " ++ new) :: ls) (p :: ps)

/-! ## Reading -/

theorem spells_remarks {rs : List Text} (hrs : ∀ l ∈ rs, isRemark l = true) : Spells rs [] := by
  induction rs with
  | nil => exact .nil
  | cons r rs ih =>
    obtain ⟨hr, hrest⟩ := List.forall_mem_cons.1 hrs
    cases r with
    | nil => cases hr
    | cons c t =>
      obtain rfl : c = '\\' := by simpa [isRemark] using hr
      exact .remark t (ih hrest)

theorem Spells.append_remarks {ls rs : List Text} {es : List HunkLine} (h : Spells ls es)
    (hrs : ∀ l ∈ rs, isRemark l = true) : Spells (ls ++ rs) es := by
  induction h with
  | nil => exact spells_remarks hrs
  | line e _ ih => exact .line e ih
  | stripped _ ih => exact .stripped ih
  | remark t _ ih => exact .remark t ih

/-- An edit in front of body lines. -/
theorem Spells.edit {l : Text} {e : HunkLine} (h : BodyLine.of? l = some (.edit e)) {ls : List Text}
    {es : List HunkLine} (hls : Spells ls es) : Spells (l :: ls) (e :: es) := by
  unfold BodyLine.of? at h
  split at h
  · cases h
    exact .stripped hls
  · rename_i t
    cases h
    exact .line ⟨.context, t⟩ hls
  · rename_i t
    cases h
    exact .line ⟨.remove, t⟩ hls
  · rename_i t
    cases h
    exact .line ⟨.add, t⟩ hls
  · cases h
  · cases h

theorem eq_remark_of_bodyLine {l : Text} (h : BodyLine.of? l = some .remark) : ∃ t, l = '\\' :: t := by
  unfold BodyLine.of? at h
  split at h <;> cases h
  exact ⟨_, rfl⟩

/-- **The lines that a body takes spell what it yields**, whatever the counters stand at. -/
theorem spells_readBody (oldLength newLength old new : Nat) (ls : List Text) :
    ∃ body, ls = body ++ (readBody oldLength newLength old new ls).2
      ∧ Spells body (readBody oldLength newLength old new ls).1 := by
  induction ls generalizing old new with
  | nil => exact ⟨[], rfl, .nil⟩
  | cons l ls ih =>
    unfold readBody
    split
    · split
      · exact ⟨[], rfl, .nil⟩
      · rename_i hremark
        obtain ⟨t, rfl⟩ := eq_remark_of_bodyLine hremark
        obtain ⟨body, hls, hbody⟩ := ih old new
        exact ⟨('\\' :: t) :: body, congrArg _ hls, .remark t hbody⟩
      · rename_i e hedit
        obtain ⟨body, hls, hbody⟩ := ih (old + e.kind.oldCount) (new + e.kind.newCount)
        exact ⟨l :: body, congrArg _ hls, .edit hedit hbody⟩
    · exact ⟨[], rfl, .nil⟩

/-- **A hunk that is read stands in front of what remains.** -/
theorem stands_of_readHunk {header : Text} {ls rest : List Text} {hunk : Hunk}
    (hat : startsWith (text "@@") header = true) (h : readHunk header ls = .ok (hunk, rest)) :
    ∃ body, ls = body ++ rest ∧ hunk.Stands header body := by
  have hread := hunkRead_of_readHunk h
  obtain ⟨body, hls, hbody⟩ := spells_readBody hunk.old.length hunk.new.length 0 0 ls
  have hrest := hread.behind
  rw [← hread.lines] at hbody
  generalize (readBody hunk.old.length hunk.new.length 0 0 ls).2 = behind at hls hrest
  -- The remarks behind the last line belong to the hunk as well.
  refine ⟨body ++ behind.takeWhile isRemark, ?_, hat, hread.ranges, hbody.append_remarks fun l hl => ?_, hread.counted⟩
  · rw [hrest, List.append_assoc, List.takeWhile_append_dropWhile, hls]
  · exact List.all_eq_true.1 List.all_takeWhile l hl

/-- How the open section goes on in the lines: with hunks, and then with further sections. -/
structure GoesOn (strip : Nat) (current : Option Patch) (ls : List Text) (ps : List Patch) (hs : List Hunk)
    (rest : List Text) (later : List Patch) : Prop where
  hunks : HoldsHunks ls hs rest
  sections : HoldsSections strip rest later
  none : current = none → hs = [] ∧ ps = later
  some : ∀ p ∈ current, p.hunks ++ hs ≠ [] ∧ ps = { p with hunks := p.hunks ++ hs } :: later

theorem text_of_sectionTarget {strip line : Nat} {old new : Text} {k : Key}
    (h : sectionTarget strip line old new = .ok k) :
    headerPath new ≠ text "/dev/null" ∧ k.text = stripPath (headerPath new) strip := by
  unfold sectionTarget at h
  split at h
  · cases h
  · rename_i hpath
    split at h
    · rename_i hkey
      cases h
      exact ⟨hpath, Key.text_of_ofPath? hkey⟩
    · cases h

theorem eq_of_sectionHeader? {l old new : Text} {ls : List Text} (h : sectionHeader? l ls = some (old, new)) :
    l = text "--- " ++ old ∧ ls = (text "+++ " ++ new) :: ls.tail := by
  simp only [sectionHeader?, Option.bind_eq_bind, Option.bind_eq_some_iff, Option.pure_def, Option.some.injEq,
    Prod.mk.injEq] at h
  obtain ⟨_, hold, next, hnext, _, hnew, rfl, rfl⟩ := h
  obtain ⟨ls, rfl⟩ := List.head?_eq_some_iff.1 hnext
  exact ⟨dropPrefix?_eq_some.1 hold, by rw [dropPrefix?_eq_some.1 hnew, List.tail_cons]⟩

/-- **Lines that are read have the shape of a diff.** The open section grows hunk by hunk. -/
theorem goesOn_of_sectionsRead {strip : Nat} {current : Option Patch} {ls : List Text} {ps : List Patch}
    (h : SectionsRead strip current ls ps) : ∃ hs rest later, GoesOn strip current ls ps hs rest later := by
  induction h with
  | ends hne =>
    refine ⟨[], [], [], .nil, .nil, ?_, ?_⟩
    · rintro rfl
      exact ⟨rfl, rfl⟩
    · rintro p ⟨⟩
      rw [List.append_nil]
      exact ⟨hne p rfl, rfl⟩
  | @opens current l old new ls _ target later hs hne htarget _ ih =>
    obtain ⟨hpath, hkey⟩ := text_of_sectionTarget htarget
    obtain ⟨hl, hls⟩ := eq_of_sectionHeader? hs
    obtain ⟨hunks, rest, later', hcont⟩ := ih
    obtain ⟨hhunks, rfl⟩ := hcont.some _ rfl
    -- The open section ends here, and the new one goes as far as its hunks do.
    have hsection : HoldsSections strip (l :: ls) (⟨target, hunks⟩ :: later') := by
      rw [hl, hls]
      exact .patch old hpath hkey hhunks hcont.hunks hcont.sections
    refine ⟨[], l :: ls, _, .stop (by rw [hs]; rfl), hsection, ?_, ?_⟩
    · rintro rfl
      exact ⟨rfl, rfl⟩
    · rintro p ⟨⟩
      rw [List.append_nil]
      exact ⟨hne p rfl, rfl⟩
  | @hunk _ _ _ _ hunk _ hs hat hread _ ih =>
    obtain ⟨body, rfl, hstands⟩ := stands_of_readHunk hat hread
    obtain ⟨hunks, rest, later, hcont⟩ := ih
    refine ⟨hunk :: hunks, rest, later, .hunk hstands (follows_of_readHunk hread) hcont.hunks, hcont.sections, ?_, ?_⟩
    · intro hnone
      cases hnone
    · rintro p ⟨⟩
      simpa using hcont.some _ rfl
  | chatter hs hat _ ih =>
    obtain ⟨hunks, rest, later, hcont⟩ := ih
    exact ⟨hunks, rest, later, .chatter ⟨hs, hat⟩ hcont.hunks, hcont.sections, hcont.none, hcont.some⟩

/-! ## Well-formed patches -/

/-- **Well-formed patches of the lines of a diff.** -/
structure WellFormedPatches (strip : Nat) (ls : List Text) (ps : List Patch) : Prop where
  /-- There is a patch. -/
  ne_nil : ps ≠ []
  /-- Behind lines without hunks there is one section for each patch, in the order of the patches. -/
  sections : ∃ rest, HoldsHunks ls [] rest ∧ HoldsSections strip rest ps
  /-- Targets are nonempty paths in normal form. -/
  target : ∀ p ∈ ps, Key.normalize p.target.text = p.target.text ∧ p.target.text ≠ []
  /-- Every patch has a hunk. -/
  hunks_ne_nil : ∀ p ∈ ps, p.hunks ≠ []
  /-- The images have the declared lengths. -/
  counted : ∀ p ∈ ps, ∀ h ∈ p.hunks, h.before.length = h.old.length ∧ h.after.length = h.new.length
  /-- The lines of a hunk stand below its header, in order and each behind its mark. -/
  spelled : ∀ p ∈ ps, ∀ h ∈ p.hunks, ∃ above header body below,
    ls = above ++ header :: (body ++ below) ∧ hunkRanges header = .ok (h.old, h.new) ∧ Spells body h.lines
  /-- They hold no line terminator. -/
  lines : ∀ p ∈ ps, ∀ h ∈ p.hunks, ∀ l ∈ h.lines, '\n' ∉ l.text ∧ '\r' ∉ l.text

/-- A hunk that lines hold stands in them. -/
theorem stands_of_holdsHunks {ls rest : List Text} {hs : List Hunk} (hls : HoldsHunks ls hs rest) :
    rest <:+ ls ∧ ∀ h ∈ hs, ∃ above header body below, ls = above ++ header :: (body ++ below) ∧ h.Stands header body := by
  induction hls with
  | nil => exact ⟨List.suffix_rfl, fun h hh => absurd hh List.not_mem_nil⟩
  | stop _ => exact ⟨List.suffix_rfl, fun h hh => absurd hh List.not_mem_nil⟩
  | @chatter l _ _ _ _ _ ih =>
    refine ⟨ih.1.trans (List.suffix_cons ..), fun h hh => ?_⟩
    obtain ⟨above, header, body, below, rfl, hstands⟩ := ih.2 h hh
    exact ⟨l :: above, header, body, below, rfl, hstands⟩
  | @hunk k header body ls _ _ hk _ _ ih =>
    refine ⟨ih.1.trans ((List.suffix_append body ls).trans (List.suffix_cons ..)), fun h hh => ?_⟩
    rcases List.mem_cons.1 hh with rfl | hh
    · exact ⟨[], header, body, ls, rfl, hk⟩
    · obtain ⟨above, header', body', below, rfl, hstands⟩ := ih.2 h hh
      exact ⟨header :: (body ++ above), header', body', below, by simp, hstands⟩

/-- A hunk of sections stands in their lines. -/
theorem stands_of_holdsSections {strip : Nat} {ls : List Text} {ps : List Patch} (hls : HoldsSections strip ls ps) :
    ∀ p ∈ ps, ∀ h ∈ p.hunks, ∃ above header body below,
      ls = above ++ header :: (body ++ below) ∧ h.Stands header body := by
  induction hls with
  | nil => exact fun p hp => absurd hp List.not_mem_nil
  | @patch p old new ls rest ps _ _ _ hhunks _ ih =>
    obtain ⟨⟨before, rfl⟩, hstands⟩ := stands_of_holdsHunks hhunks
    intro q hq h hh
    rcases List.mem_cons.1 hq with rfl | hq
    · obtain ⟨above, header, body, below, heq, hstand⟩ := hstands h hh
      exact ⟨_ :: _ :: above, header, body, below, by rw [heq]; rfl, hstand⟩
    · obtain ⟨above, header, body, below, rfl, hstand⟩ := ih q hq h hh
      exact ⟨(text "--- " ++ old) :: (text "+++ " ++ new) :: (before ++ above), header, body, below, by simp, hstand⟩

/-- **Patches that are read are well formed.** -/
theorem wellFormedPatches_of_parseAll {diff : Text} {strip : Nat} {ps : List Patch} (h : parseAll diff strip = .ok ps) :
    WellFormedPatches strip (lines diff) ps := by
  obtain ⟨hunks, rest, later, hcont⟩ := goesOn_of_sectionsRead (sectionsRead_of_parseAll h)
  obtain ⟨rfl, rfl⟩ := hcont.none rfl
  obtain ⟨before, hlines⟩ := (stands_of_holdsHunks hcont.hunks).1
  have hsound := sound_of_parseAll h
  refine ⟨?_, ⟨rest, hcont.hunks, hcont.sections⟩, fun p _ => ⟨p.target.isNormal, p.target.ne_nil⟩,
    fun p hp => (hsound p hp).hunks_ne_nil, fun p hp k hk => ?_, fun p hp k hk => ?_, lined_of_parseAll h⟩
  · rintro rfl
    obtain ⟨_, _, hnone⟩ := bind_eq_ok.1 h
    simp only at hnone
    split at hnone
    · exact throw_ne_ok hnone
    · rename_i hne
      rw [pure_eq_ok] at hnone
      exact hne (by rw [hnone]; rfl)
  · exact ⟨((hsound p hp).counted k hk).before, ((hsound p hp).counted k hk).after⟩
  · obtain ⟨above, header, body, below, hrest, hstands⟩ := stands_of_holdsSections hcont.sections p hp k hk
    exact ⟨before ++ above, header, body, below, by rw [← hlines, hrest, List.append_assoc], hstands.ranges, hstands.body⟩

/-- Two sections below chatter; a remark stands between the edits, and the empty line below lost its mark. -/
theorem wellFormedPatches_of_parseAll_sections :
    ∃ ps, parseAll (text
        "m\n--- a/F\n+++ b/F\n@@ -1,2 +1,2 @@\n-a\n\\ eof\n+b\n\n\ndone\n--- G\n+++ b/G\n@@ -0,0 +1 @@\n+c\n") 1 = .ok ps
      ∧ WellFormedPatches 1 (lines (text
        "m\n--- a/F\n+++ b/F\n@@ -1,2 +1,2 @@\n-a\n\\ eof\n+b\n\n\ndone\n--- G\n+++ b/G\n@@ -0,0 +1 @@\n+c\n")) ps := by
  let first : Hunk := ⟨⟨1, 2⟩, ⟨1, 2⟩, [⟨.remove, text "a"⟩, ⟨.add, text "b"⟩, ⟨.context, []⟩]⟩
  let second : Hunk := ⟨⟨0, 0⟩, ⟨1, 1⟩, [⟨.add, text "c"⟩]⟩
  have hps : parseAll (text
      "m\n--- a/F\n+++ b/F\n@@ -1,2 +1,2 @@\n-a\n\\ eof\n+b\n\n\ndone\n--- G\n+++ b/G\n@@ -0,0 +1 @@\n+c\n") 1
      = .ok [⟨⟨text "F", by decide, by decide⟩, [first]⟩, ⟨⟨text "G", by decide, by decide⟩, [second]⟩] := by
    decide +kernel
  exact ⟨_, hps, wellFormedPatches_of_parseAll hps⟩

end JavaMend.Diff
