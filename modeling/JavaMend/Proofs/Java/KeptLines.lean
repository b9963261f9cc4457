import JavaMend.Proofs.Java.CanonicalBlock
import JavaMend.Proofs.Java.ShortenedCode

/-!
# `Proofs.Java.KeptLines` — the lines that repair keeps

Apart from its blank lines and the imports of its region, a text keeps its lines when its imports are repaired: they
stay in order around the new block, and those below the region are shortened. They are shortened as code of their own,
though, so a comment that is open at the end of the region does not protect what is in it.

## Contents
- **Lines.** `nonblank`; `nonblank_rebuild`.
- **The end.** `getLast?_rebuild`, `getLast?_fixImports`.
- **Kept lines.** `bodyMode`, `KeepsLines`, `ShortensInCode`; `exists_block`, `keepsLines_of_shortens`.
- **Where the block stands.** `eq_of_insert_block`, `eq_of_nonblank_eq`; `keepsLines_iff`.
- **An open comment.** `not_keepsLines_comment`.
-/

namespace JavaMend.Java

open JavaMend Text

/-! ## Lines -/

/-- The lines that are not blank. -/
def nonblank (ls : List Text) : List Text := ls.filter fun l => !isBlankLine l

@[simp] theorem nonblank_append (ls ks : List Text) : nonblank (ls ++ ks) = nonblank ls ++ nonblank ks :=
  List.filter_append ls ks

theorem nonblank_eq_nil {ls : List Text} (h : ∀ l ∈ ls, isBlankLine l = true) : nonblank ls = [] :=
  List.filter_eq_nil_iff.2 fun l hl => by simp [h l hl]

theorem nonblank_eq_self {ls : List Text} (h : ∀ l ∈ ls, isBlankLine l = false) : nonblank ls = ls :=
  List.filter_eq_self.2 fun l hl => by simp [h l hl]

theorem nonblank_dropBlankEnd (ls : List Text) : nonblank (dropBlankEnd ls) = nonblank ls := by
  obtain ⟨bs, hbs, hblank⟩ := exists_blanks_dropBlankEnd ls
  conv => rhs; rw [hbs]
  rw [nonblank_append, nonblank_eq_nil hblank, List.append_nil]

theorem nonblank_dropWhile_blank (ls : List Text) : nonblank (ls.dropWhile isBlankLine) = nonblank ls := by
  conv => rhs; rw [← List.takeWhile_append_dropWhile (p := isBlankLine) (l := ls)]
  rw [nonblank_append, nonblank_eq_nil (List.all_eq_true.1 List.all_takeWhile), List.nil_append]

theorem nonblank_rest (l : Layout) (terminated : Bool) : nonblank (l.rest terminated) = nonblank l.cut.2 := by
  rw [Layout.rest, nonblank_dropWhile_blank]
  split
  · rename_i h
    simp only [Bool.and_eq_true, beq_iff_eq] at h
    obtain ⟨ls, hls⟩ := List.getLast?_eq_some_iff.1 h.2
    have hempty : nonblank [[]] = [] := rfl
    rw [hls, List.dropLast_concat, nonblank_append, hempty, List.append_nil]
  · rfl

theorem not_isBlankLine_importLine (target : Text) : isBlankLine (importLine target) = false := by
  have hopens : importLine target = 'i' :: (text "mport " ++ target ++ [';']) := rfl
  rw [hopens, isBlankLine, List.all_cons, show isBlank 'i' = false by decide, Bool.false_and]

theorem not_isBlankLine_block {targets : List Text} : ∀ l ∈ block targets, isBlankLine l = false := by
  intro l hl
  obtain ⟨target, -, rfl⟩ := List.mem_map.1 hl
  exact not_isBlankLine_importLine target

theorem not_isBlankLine_strays {l : Layout} : ∀ line ∈ l.strays, isBlankLine line = false := by
  intro line hline
  have h := (List.mem_filter.1 hline).2
  simp only [Bool.and_eq_true, Bool.not_eq_true'] at h
  exact h.1

theorem nonblank_spaced (ss : List (List Text)) : nonblank (spaced ss) = nonblank ss.flatten := by
  induction ss with
  | nil => rfl
  | cons s ss ih =>
    cases ss with
    | nil => simp [spaced]
    | cons r rs =>
      have hempty : nonblank ([] :: spaced (r :: rs)) = nonblank (spaced (r :: rs)) := rfl
      rw [spaced, nonblank_append, hempty, ih, ← nonblank_append, ← List.flatten_cons]

theorem flatten_filter_isEmpty (ss : List (List Text)) : (ss.filter fun s => !s.isEmpty).flatten = ss.flatten := by
  induction ss with
  | nil => rfl
  | cons s ss ih => cases s <;> simp [ih]

/-- **The lines of a rebuilt text**: those above the block, the block, the strays and those below. -/
theorem nonblank_rebuild {l : Layout} {targets : List Text} {terminated : Bool}
    (hlines : ∀ line ∈ l.head ++ l.region ++ l.body, '\n' ∉ line) (htargets : ∀ target ∈ targets, '\n' ∉ target) :
    nonblank (splitOn '\n' (rebuild l targets terminated)) =
      nonblank l.cut.1 ++ block targets ++ l.strays ++ nonblank l.cut.2 := by
  have hsections : nonblank (shownSections l targets terminated).flatten =
      nonblank l.cut.1 ++ block targets ++ l.strays ++ nonblank l.cut.2 := by
    rw [shownSections, flatten_filter_isEmpty, Layout.sections]
    simp only [List.flatten_cons, List.flatten_nil, List.append_nil, nonblank_append, nonblank_dropBlankEnd,
      nonblank_rest, nonblank_eq_self not_isBlankLine_block, nonblank_eq_self not_isBlankLine_strays, List.append_assoc]
  rw [← hsections]
  by_cases hne : shownSections l targets terminated = []
  · rw [rebuild_eq, show (l.sections targets terminated).filter (fun s => !s.isEmpty) = [] from hne, hne]
    cases terminated <;> rfl
  · rw [splitOn_rebuild hlines htargets hne, nonblank_append, nonblank_spaced]
    cases terminated <;> simp [nonblank, isBlankLine]

/-! ## The end -/

theorem getLast?_spaced {ss : List (List Text)} (hne : ∀ s ∈ ss, s ≠ []) :
    ∀ line ∈ (spaced ss).getLast?, ∃ s ∈ ss, line ∈ s.getLast? := by
  induction ss with
  | nil => simp [spaced]
  | cons s ss ih =>
    intro line hline
    cases ss with
    | nil => exact ⟨s, List.mem_cons_self, hline⟩
    | cons r rs =>
      have hrest : spaced (r :: rs) ≠ [] := by
        obtain ⟨k, ks, hk⟩ := List.exists_cons_of_ne_nil (hne r (by simp))
        intro hnil
        have hmem : k ∈ spaced (r :: rs) := mem_spaced List.mem_cons_self (by simp [hk])
        simp [hnil] at hmem
      rw [spaced, List.getLast?_append_of_ne_nil _ (by simp), List.getLast?_cons_of_ne_nil hrest] at hline
      obtain ⟨q, hq, hlast⟩ := ih (fun q hq => hne q (List.mem_cons_of_mem s hq)) line hline
      exact ⟨q, List.mem_cons_of_mem s hq, hlast⟩

theorem ne_nil_of_not_isBlankLine {l : Text} (h : isBlankLine l = false) : l ≠ [] := by
  rintro rfl
  cases h

/-- A rebuilt text that is not to end with a line end does not, unless the lines below the block do. -/
theorem getLast?_rebuild {l : Layout} {targets : List Text} {terminated : Bool}
    (hlines : ∀ line ∈ l.head ++ l.region ++ l.body, '\n' ∉ line) (htargets : ∀ target ∈ targets, '\n' ∉ target)
    (hend : terminated = false → l.cut.2.getLast? = some [] → ∀ line ∈ l.cut.2, isBlankLine line = true) :
    (rebuild l targets terminated).getLast? = some '\n' ↔ terminated = true := by
  cases terminated with
  | true => simp [rebuild_eq]
  | false =>
    rw [getLast?_eq_newline_iff]
    refine iff_of_false ?_ (by simp)
    rintro ⟨ls, hne, hls⟩
    by_cases hshown : shownSections l targets false = []
    · rw [rebuild_eq, show (l.sections targets false).filter (fun s => !s.isEmpty) = [] from hshown] at hls
      exact hne (by simpa [joinWith, splitOn] using hls)
    · rw [splitOn_rebuild hlines htargets hshown, if_neg (by simp), List.append_nil] at hls
      obtain ⟨s, hs, hlast⟩ := getLast?_spaced (fun s hs => (mem_shownSections.1 hs).2) []
        (show [] ∈ (spaced (shownSections l targets false)).getLast? by rw [hls, List.getLast?_concat]; rfl)
      have hmem : ([] : Text) ∈ s := List.mem_of_getLast? hlast
      have hs := (mem_shownSections.1 hs).1
      simp only [Layout.sections, List.mem_cons, List.not_mem_nil, or_false] at hs
      rcases hs with rfl | rfl | rfl | rfl
      · -- The last line above the block is not blank.
        rw [dropBlankEnd, List.getLast?_reverse] at hlast
        obtain ⟨rest, hrest⟩ := List.head?_eq_some_iff.1 hlast
        exact not_of_dropWhile_cons hrest rfl
      · exact ne_nil_of_not_isBlankLine (not_isBlankLine_block [] hmem) rfl
      · exact ne_nil_of_not_isBlankLine (not_isBlankLine_strays [] hmem) rfl
      · -- If the last line below is empty then all are blank, and none of them is written.
        have hrest : l.rest false = l.cut.2.dropWhile isBlankLine := rfl
        have hcut : l.cut.2.getLast? = some [] := by
          rw [← List.takeWhile_append_dropWhile (p := isBlankLine) (l := l.cut.2), ← hrest,
            List.getLast?_append_of_ne_nil _ (List.ne_nil_of_mem hmem)]
          exact hlast
        rw [hrest, List.dropWhile_eq_nil_iff.2 (hend rfl hcut)] at hmem
        cases hmem

/-- The last line of a text that does not end with a line end is not empty, if it has characters. -/
theorem getLast?_splitOn {t : Text} (h : t.getLast? ≠ some '\n') (hlast : (splitOn '\n' t).getLast? = some []) : t = [] := by
  obtain ⟨ls, hls⟩ := List.getLast?_eq_some_iff.1 hlast
  by_cases hne : ls = []
  · rw [← joinWith_splitOn '\n' t, hls, hne]
    rfl
  · exact absurd (getLast?_eq_newline_iff.2 ⟨ls, hne, hls⟩) h

/-- The body of a text ends with a line end only if the text does. -/
theorem getLast?_bodyText {t : Text} (h : (bodyText t).getLast? = some '\n') : t.getLast? = some '\n' := by
  have hne : (layout t).body ≠ [] := by
    intro hnil
    rw [bodyText, hnil] at h
    cases h
  obtain ⟨ls, hls, hbody⟩ := getLast?_eq_newline_iff.1 h
  rw [splitOn_bodyText hne] at hbody
  refine getLast?_eq_newline_iff.2 ⟨(layout t).head ++ (layout t).region ++ ls, by simp [hls], ?_⟩
  rw [List.append_assoc, ← hbody, layout, layoutLines_lines]

/-- Without a region the shortened body is cut at the package clause. -/
theorem cut_of_no_region {t : Text} (h : (layout t).region = []) :
    (shortenedLayout t).cut = splitAtPackage (splitOn '\n' (shortenedBody t)) := by
  rw [Layout.cut, shortenedLayout_region, h, shortenedLayout_body]
  rfl

/-- What is written below the block ends the shortened body. -/
theorem cut_suffix (t : Text) : (shortenedLayout t).cut.2 <:+ splitOn '\n' (shortenedBody t) := by
  by_cases h : (layout t).region = []
  · rw [cut_of_no_region h]
    exact ⟨_, splitAtPackage_lines _⟩
  · have hcut : (shortenedLayout t).cut.2 = splitOn '\n' (shortenedBody t) := congrArg Prod.snd (cut_of_region h)
    exact hcut ▸ List.suffix_rfl

/-- **The result ends with a line end exactly if the text does.** -/
theorem getLast?_fixImports (t : Text) : (fixImports t).getLast? = some '\n' ↔ t.getLast? = some '\n' := by
  rw [fixImports_eq]
  split
  · rfl
  · rw [getLast?_rebuild (newline_not_mem_shortenedLayout t) (fun _ => newline_not_mem_keptImports), beq_iff_eq]
    intro hend hcut
    have hend : (shortenedBody t).getLast? ≠ some '\n' := by
      rw [(drops_shortenedBody t).getLast?]
      exact fun hbody => absurd (getLast?_bodyText hbody) (by simpa using hend)
    obtain ⟨top, htop⟩ := cut_suffix t
    have hlast : (splitOn '\n' (shortenedBody t)).getLast? = some [] := by
      obtain ⟨ls, hls⟩ := List.getLast?_eq_some_iff.1 hcut
      rw [← htop, hls, ← List.append_assoc, List.getLast?_concat]
    have hlines : splitOn '\n' (shortenedBody t) = [[]] := by rw [getLast?_splitOn hend hlast]; rfl
    intro line hline
    have hmem : line ∈ splitOn '\n' (shortenedBody t) := htop ▸ List.mem_append_right top hline
    rw [hlines, List.mem_singleton] at hmem
    rw [hmem]
    rfl

/-! ## Kept lines -/

/-- What the lines below the import region begin in. -/
def bodyMode (t : Text) : Mode := exits .code (layout t).upToRegion

/-- **Repair keeps the lines of a text**, the body being read from a mode on: the lines that are neither blank nor
    imports of the region stay in order, with some names in the code of the body shortened, and around one block of
    imports; and the result ends with a line end exactly if the text does. -/
def KeepsLines (m : Mode) (t : Text) : Prop :=
  (∃ body above imports below, Shortens m none (bodyText t) body
      ∧ nonblank (layout t).head ++ straysOf (layout t).region ++ nonblank (splitOn '\n' body) = above ++ below
      ∧ nonblank (splitOn '\n' (fixImports t)) = above ++ imports ++ below ∧ ∀ l ∈ imports, isImport l = true)
    ∧ (fixImports t ≠ [] → ((fixImports t).getLast? = some '\n' ↔ t.getLast? = some '\n'))

/-- The names that repair shortens stand in the code of the text. -/
def ShortensInCode (t : Text) : Prop := Shortens (bodyMode t) none (bodyText t) (shortenedBody t)

/-- The lines of the result, with the block among them. -/
theorem exists_block (t : Text) :
    ∃ above imports below,
      nonblank (layout t).head ++ straysOf (layout t).region ++ nonblank (splitOn '\n' (shortenedBody t)) = above ++ below
      ∧ nonblank (splitOn '\n' (fixImports t)) = above ++ imports ++ below ∧ (∀ l ∈ imports, isImport l = true)
      ∧ ((layout t).region ≠ [] → above = nonblank (layout t).head) := by
  rw [fixImports_eq]
  split
  · rename_i hstay
    obtain ⟨hregion, hnames⟩ := hstay
    have hlines : splitOn '\n' (shortenedBody t) = splitOn '\n' t := by
      rw [(shortenedBody_eq_iff t).2 hnames, splitOn_bodyText (body_ne_nil hregion)]
      exact (layoutLines_of_region_eq_nil hregion).2
    have hhead : (layout t).head = [] := (layoutLines_of_region_eq_nil hregion).1
    refine ⟨[], [], nonblank (splitOn '\n' t), ?_, rfl, by simp, fun h => absurd hregion h⟩
    rw [hlines, hhead, hregion]
    rfl
  · have himports : ∀ l ∈ block (keptImports t), isImport l = true := by
      intro l hl
      obtain ⟨target, htarget, rfl⟩ := List.mem_map.1 hl
      exact isImport_importLine (spaced_keptImports (mem_sortTargets.1 htarget))
    have hresult := @nonblank_rebuild (shortenedLayout t) (keptImports t) (t.getLast? == some '\n')
      (newline_not_mem_shortenedLayout t) fun _ => newline_not_mem_keptImports
    have hstrays : (shortenedLayout t).strays = straysOf (layout t).region := rfl
    rw [hstrays] at hresult
    refine ⟨nonblank (shortenedLayout t).cut.1, block (keptImports t),
      straysOf (layout t).region ++ nonblank (shortenedLayout t).cut.2, ?_, ?_, himports, fun hregion => ?_⟩
    · by_cases hregion : (layout t).region = []
      · have hlines := splitAtPackage_lines (splitOn '\n' (shortenedBody t))
        have hhead : (layout t).head = [] := (layoutLines_of_region_eq_nil hregion).1
        rw [cut_of_no_region hregion, hregion, hhead]
        conv => lhs; rw [← hlines]
        simp [nonblank, straysOf]
      · rw [cut_of_region hregion, List.append_assoc]
    · rw [hresult, List.append_assoc, List.append_assoc]
    · rw [cut_of_region hregion]

/-- **Repair keeps the lines of a text** if the names that it shortens stand in the code that is read. -/
theorem keepsLines_of_shortens {m : Mode} {t : Text} (h : Shortens m none (bodyText t) (shortenedBody t)) :
    KeepsLines m t := by
  obtain ⟨above, imports, below, hlines, hresult, himports, -⟩ := exists_block t
  exact ⟨⟨shortenedBody t, above, imports, below, h, hlines, hresult, himports⟩, fun _ => getLast?_fixImports t⟩

/-! ### Where the block stands -/

section
variable {α : Type} {p : α → Bool} {as bs cs ds es fs gs : List α}

/-- A block of elements with a property stands where another one does, if none has the property above it and the first
    below it has not. -/
theorem eq_of_insert_block (hlines : as ++ bs = cs ++ ds) (hblock : as ++ es ++ bs = cs ++ fs ++ gs)
    (hes : ∀ a ∈ es, p a = true) (hfs : ∀ a ∈ fs, p a = true) (hcs : ∀ a ∈ cs, p a = false)
    (hds : ∀ a ∈ ds.head?, p a = false) (hlength : ds.length = gs.length) : ds = gs := by
  have hcount : es.length = fs.length := by
    have h1 := congrArg List.length hlines
    have h2 := congrArg List.length hblock
    simp only [List.length_append] at h1 h2
    omega
  cases hes' : es with
  | nil =>
    have hnil : fs = [] := List.length_eq_zero_iff.1 (by rw [← hcount, hes']; rfl)
    rw [hes', hnil, List.append_nil, List.append_nil, hlines] at hblock
    exact List.append_cancel_left hblock
  | cons e es' =>
    obtain ⟨f, fs', hfs'⟩ : ∃ f fs', fs = f :: fs' := by
      cases hfs' : fs with
      | nil => simp [hes', hfs'] at hcount
      | cons f fs' => exact ⟨f, fs', rfl⟩
    have he : p e = true := hes e (by simp [hes'])
    have hf : p f = true := hfs f (by simp [hfs'])
    rcases List.append_eq_append_iff.1 hlines with ⟨between, rfl, rfl⟩ | ⟨between, rfl, rfl⟩
    · cases between with
      | nil =>
        simp only [List.append_nil, List.append_assoc, List.append_cancel_left_eq] at hblock
        exact (List.append_inj hblock hcount).2
      | cons c between =>
        -- The block would stand above an element that is above it.
        rw [hes'] at hblock
        simp only [List.append_assoc, List.cons_append, List.append_cancel_left_eq, List.cons.injEq] at hblock
        have hc := hcs c (by simp)
        rw [← hblock.1, he] at hc
        cases hc
    · cases between with
      | nil =>
        simp only [List.append_nil, List.append_assoc, List.append_cancel_left_eq] at hblock
        exact (List.append_inj hblock hcount).2
      | cons d between =>
        rw [hfs'] at hblock
        simp only [List.append_assoc, List.cons_append, List.append_cancel_left_eq, List.cons.injEq] at hblock
        have hd := hds d (by simp)
        rw [hblock.1, hf] at hd
        cases hd

end

theorem forall₂_nonblank {ls ks : List Text} (h : List.Forall₂ Drops ls ks) :
    List.Forall₂ Drops (nonblank ls) (nonblank ks) :=
  List.rel_filter (fun _ _ hline => by simp [hline.isBlankLine]) h

/-- A blank line has nothing to drop. -/
theorem Drops.eq_of_blank {l k : Text} (h : Drops l k) (hblank : Text.isBlankLine l = true) : k = l := by
  induction h with
  | nil => rfl
  | keep c _ ih =>
    rw [Text.isBlankLine, List.all_cons, Bool.and_eq_true] at hblank
    rw [ih hblank.2]
  | drop hc =>
    rw [Text.isBlankLine, List.all_cons, Drops.not_isBlank_of_inPackage hc] at hblank
    cases hblank

/-- The lines that are not blank tell what was dropped. -/
theorem eq_of_nonblank_eq {ls ks js : List Text} (hks : List.Forall₂ Drops ls ks) (hjs : List.Forall₂ Drops ls js)
    (h : nonblank ks = nonblank js) : ks = js := by
  induction hks generalizing js with
  | nil => cases hjs; rfl
  | @cons l k ls ks hk _ ih =>
    cases hjs with
    | @cons _ j _ js hj hjs =>
      have hkb := hk.isBlankLine
      have hjb := hj.isBlankLine
      cases hl : isBlankLine l with
      | true =>
        rw [hl] at hkb hjb
        rw [hk.eq_of_blank hl, hj.eq_of_blank hl, ih hjs (by simpa [nonblank, hkb, hjb] using h)]
      | false =>
        rw [hl] at hkb hjb
        obtain ⟨rfl, hrest⟩ : k = j ∧ nonblank ks = nonblank js := by simpa [nonblank, hkb, hjb] using h
        rw [ih hjs hrest]

/-- The first line of a body that is not blank imports nothing, if the scan finds no import there. -/
theorem isImport_head_nonblank {ls : List Text} (h : headerShows importTarget? ls = []) :
    ∀ l ∈ (nonblank ls).head?, isImport l = false := by
  induction ls with
  | nil => simp [nonblank]
  | cons l ls ih =>
    cases hl : isBlankLine l with
    | true =>
      rw [headerShows_blank_cons (fun _ => importTarget?_of_blank) hl] at h
      simpa [nonblank, hl] using ih h
    | false =>
      have hhead : (nonblank (l :: ls)).head? = some l := by simp [nonblank, hl]
      rw [hhead]
      rintro _ ⟨⟩
      refine Bool.eq_false_iff.2 fun himport => ?_
      have hheader : isHeaderLine l = true := by simp [isHeaderLine, himport]
      obtain ⟨target, htarget⟩ := Option.isSome_iff_exists.1 himport
      rw [headerShows, List.takeWhile_cons_of_pos hheader, List.filterMap_cons_some htarget] at h
      cases h

/-- The first line below the block is no import, whatever is dropped from the body. -/
theorem isImport_head_below {t body : Text} (hregion : (layout t).region ≠ [])
    (hbody : List.Forall₂ Drops (splitOn '\n' (bodyText t)) (splitOn '\n' body)) :
    ∀ l ∈ (straysOf (layout t).region ++ nonblank (splitOn '\n' body)).head?, isImport l = false := by
  cases hs : straysOf (layout t).region with
  | cons l ls =>
    rintro _ ⟨⟩
    exact isImport_strays (layout t) l (by rw [Layout.strays, ← straysOf, hs]; exact List.mem_cons_self)
  | nil =>
    intro l hl
    by_cases hnil : (layout t).body = []
    · rw [bodyText, hnil] at hbody
      have hlines : nonblank (splitOn '\n' body) = [] := by
        obtain ⟨line, lines, hline, hrest, hsplit⟩ := List.forall₂_cons_left_iff.1 hbody
        rw [hsplit, List.forall₂_nil_left_iff.1 hrest]
        cases hline
        rfl
      rw [hlines] at hl
      cases hl
    · rw [splitOn_bodyText hnil] at hbody
      obtain ⟨k, hk, hdrops⟩ : ∃ k ∈ (nonblank (layout t).body).head?, Drops k l := by
        have h := forall₂_nonblank hbody
        cases h' : nonblank (layout t).body with
        | nil =>
          rw [h', List.forall₂_nil_left_iff] at h
          rw [h] at hl
          cases hl
        | cons k ks =>
          rw [h', List.forall₂_cons_left_iff] at h
          obtain ⟨j, js, hkj, -, hjs⟩ := h
          rw [hjs] at hl
          cases hl
          exact ⟨k, rfl, hkj⟩
      rw [hdrops.isImport]
      exact isImport_head_nonblank (delimited_layoutLines hregion).body k hk

/-- **Exactly if the names that repair shortens stand in the code of the text** does it keep the lines of the text. Read
    as code of its own, the body is shortened in its code whatever the text is. -/
theorem keepsLines_iff (t : Text) : KeepsLines .code t ∧ (KeepsLines (bodyMode t) t ↔ ShortensInCode t) := by
  have hcode : Shortens .code none (bodyText t) (shortenedBody t) := shortens_shorten _ _
  refine ⟨keepsLines_of_shortens hcode, ?_, keepsLines_of_shortens⟩
  rintro ⟨⟨body, above, imports, below, hshort, hlines, hresult, himports⟩, -⟩
  by_cases hregion : (layout t).region = []
  · have hmode : bodyMode t = .code := by
      have hhead : (layout t).head = [] := (layoutLines_of_region_eq_nil hregion).1
      rw [bodyMode, Layout.upToRegion, hregion, hhead]
      rfl
    rw [ShortensInCode, hmode]
    exact hcode
  · obtain ⟨above', imports', below', hlines', hresult', himports', habove⟩ := exists_block t
    rw [habove hregion] at hlines' hresult'
    have hdelimited : (layout t).Delimited := delimited_layoutLines hregion
    have hbody : List.Forall₂ Drops (splitOn '\n' (bodyText t)) (splitOn '\n' body) := hshort.drops.splitOn
    have hbody' : List.Forall₂ Drops (splitOn '\n' (bodyText t)) (splitOn '\n' (shortenedBody t)) :=
      (drops_shortenedBody t).splitOn
    have hbelow : straysOf (layout t).region ++ nonblank (splitOn '\n' body) = below' := by
      refine eq_of_insert_block (p := isImport) ?_ (hresult.symm.trans hresult') himports himports'
        (fun l hl => hdelimited.head l (List.mem_filter.1 hl).1) (isImport_head_below hregion hbody) ?_
      · rw [← hlines, List.append_assoc]
      · rw [List.append_assoc] at hlines'
        rw [← List.append_cancel_left hlines', List.length_append, List.length_append,
          (forall₂_nonblank hbody).length_eq.symm, (forall₂_nonblank hbody').length_eq.symm]
    rw [List.append_assoc] at hlines'
    have hsame : splitOn '\n' body = splitOn '\n' (shortenedBody t) :=
      eq_of_nonblank_eq hbody hbody' (List.append_cancel_left (hbelow.trans (List.append_cancel_left hlines').symm))
    rwa [ShortensInCode, ← joinWith_splitOn '\n' (shortenedBody t), ← hsame, joinWith_splitOn]

/-! ## An open comment -/

/-- In a block comment a text without a star stays. -/
theorem Shortens.of_block {before : Option Char} {x y s : Text} (hx : '*' ∉ x)
    (h : Shortens .block before (x ++ y) s) : ∃ r, s = x ++ r := by
  induction x generalizing before s with
  | nil => exact ⟨s, rfl⟩
  | cons c x ih =>
    rw [List.mem_cons, not_or] at hx
    cases h with
    | keep _ h =>
      have hmode : (step .block c (x.append y).head?).2 = .block := if_neg fun hc => hx.1 hc.1.symm
      rw [hmode] at h
      obtain ⟨r, rfl⟩ := ih hx.2 h
      exact ⟨r, rfl⟩

/-- **A comment that holds the region and goes on below it does not keep its lines**: a name in it is shortened, and the
    new import is written into the comment. -/
theorem not_keepsLines_comment :
    ¬ KeepsLines (bodyMode (text "/*\nimport a.B;\njava.util.List x;\n*/\n"))
      (text "/*\nimport a.B;\njava.util.List x;\n*/\n") := by
  rintro ⟨⟨body, above, imports, below, hshort, hlines, hresult, -⟩, -⟩
  have hmode : bodyMode (text "/*\nimport a.B;\njava.util.List x;\n*/\n") = .block := by decide +kernel
  have hbody : bodyText (text "/*\nimport a.B;\njava.util.List x;\n*/\n") =
      text "java.util.List x;\n" ++ text "*/\n" := by decide +kernel
  rw [hmode, hbody] at hshort
  have hline : text "java.util.List x;" ∈ nonblank (splitOn '\n' body) := by
    obtain ⟨r, rfl⟩ := Shortens.of_block (by decide) hshort
    have hends : text "java.util.List x;\n" = text "java.util.List x;" ++ ['\n'] := by decide
    rw [hends, List.append_assoc, List.singleton_append, splitOn_append, nonblank_append]
    exact List.mem_append_left _ (by decide)
  have hkept : text "java.util.List x;" ∈ above ++ below := hlines ▸ List.mem_append_right _ hline
  have hfound : text "java.util.List x;" ∈
      nonblank (splitOn '\n' (fixImports (text "/*\nimport a.B;\njava.util.List x;\n*/\n"))) := by
    rw [hresult]
    simp only [List.mem_append] at hkept ⊢
    exact hkept.imp_left .inl
  revert hfound
  decide +kernel

end JavaMend.Java
