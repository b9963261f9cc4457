import JavaMend.Proofs.Java.Preservation

/-!
# `Proofs.Java.HeaderScans` — the layout of a rebuilt text

A rebuilt text is scanned for its layout like any other. What the scan finds is the block that was written: the head
above it shows no import, and neither do the strays and the body below it, since they come from a layout that ended with
its last import.

## Contents
- **The header.** `headerShows`; `headerShows_append`, `headerShows_dropWhile_blank`, `headerShows_spaced_cons`.
- **Layouts.** `Layout.Delimited`; `delimited_layoutLines`, `layoutLines_of_block`.
- **Rebuilt texts.** `headerShows_rebuild`; `package_rebuild`, `layout_rebuild`, `region_rebuild_nil`.
-/

namespace JavaMend.Java

open JavaMend Text

/-! ## The header -/

/-- What the header lines that open a text show. -/
def headerShows {α : Type} (f : Text → Option α) (ls : List Text) : List α := (ls.takeWhile isHeaderLine).filterMap f

theorem isHeaderLine_of_blank {l : Text} (h : isBlankLine l = true) : isHeaderLine l = true := by
  simp [isHeaderLine, isHeaderNoise, h]

theorem trim_of_blank {l : Text} (h : isBlankLine l = true) : trim l = [] := by
  have hstart : trimStart l = [] := List.dropWhile_eq_nil_iff.2 (List.all_eq_true.1 h)
  rw [trim, hstart]
  rfl

theorem importTarget?_of_blank {l : Text} (h : isBlankLine l = true) : importTarget? l = none := by
  rw [importTarget?, trim_of_blank h]
  rfl

theorem packageClause?_of_blank {l : Text} (h : isBlankLine l = true) : packageClause? l = none := by
  rw [packageClause?, trim_of_blank h]
  rfl

section
variable {α : Type} {f : Text → Option α}

theorem headerShows_append {as : List Text} (h : ∀ l ∈ as, isHeaderLine l = true) (bs : List Text) :
    headerShows f (as ++ bs) = as.filterMap f ++ headerShows f bs := by
  rw [headerShows, List.takeWhile_append_of_pos h, List.filterMap_append, headerShows]

variable (hf : ∀ l, isBlankLine l = true → f l = none)
include hf

theorem headerShows_blank_cons {l : Text} (h : isBlankLine l = true) (ls : List Text) :
    headerShows f (l :: ls) = headerShows f ls := by
  rw [headerShows, List.takeWhile_cons_of_pos (isHeaderLine_of_blank h), List.filterMap_cons_none (hf l h), headerShows]

theorem headerShows_dropWhile_blank (ls : List Text) : headerShows f (ls.dropWhile isBlankLine) = headerShows f ls := by
  induction ls with
  | nil => rfl
  | cons l ls ih =>
    cases h : isBlankLine l with
    | true => rw [List.dropWhile_cons_of_pos h, ih, headerShows_blank_cons hf h]
    | false => rw [List.dropWhile_cons_of_neg (by simp [h])]

theorem headerShows_concat_nil (ls : List Text) : headerShows f (ls ++ [[]]) = headerShows f ls := by
  induction ls with
  | nil => exact headerShows_blank_cons hf rfl []
  | cons l ls ih =>
    unfold headerShows at ih ⊢
    rw [List.cons_append, List.takeWhile_cons, List.takeWhile_cons]
    split
    · rw [List.filterMap_cons, List.filterMap_cons, ih]
    · rfl

theorem filterMap_dropBlankEnd (ls : List Text) : (dropBlankEnd ls).filterMap f = ls.filterMap f := by
  obtain ⟨blanks, hls, hblank⟩ := exists_blanks_dropBlankEnd ls
  have hnone : blanks.filterMap f = [] := List.filterMap_eq_nil_iff.2 fun l hl => hf l (hblank l hl)
  conv => rhs; rw [hls]
  rw [List.filterMap_append, hnone, List.append_nil]

/-- A section of header lines shows what is in it, and the scan goes on behind the empty line. -/
theorem headerShows_spaced_cons {s : List Text} (h : ∀ l ∈ s, isHeaderLine l = true) (ss : List (List Text)) :
    headerShows f (spaced ((s :: ss).filter fun s => !s.isEmpty)) =
      s.filterMap f ++ headerShows f (spaced (ss.filter fun s => !s.isEmpty)) := by
  cases s with
  | nil => rfl
  | cons l s =>
    rw [List.filter_cons_of_pos (by simp)]
    cases ss.filter fun s => !s.isEmpty with
    | nil => simpa [spaced] using headerShows_append (f := f) h []
    | cons r rs => rw [spaced, headerShows_append h, headerShows_blank_cons hf rfl]

end

/-! ## Layouts -/

section
variable {α : Type} {p : α → Bool} {as bs : List α}

/-- Where the first elements with a property come in a row, they are found. -/
theorem span_block (has : ∀ a ∈ as, p a = false) (hne : bs ≠ []) (hbs : ∀ b ∈ bs, p b = true) (cs : List α) :
    (as ++ bs ++ cs).takeWhile (fun a => !p a) = as ∧ (as ++ bs ++ cs).dropWhile (fun a => !p a) = bs ++ cs := by
  have hplain : ∀ a ∈ as, (!p a) = true := fun a ha => by rw [has a ha]; rfl
  obtain ⟨b, bs, rfl⟩ := List.exists_cons_of_ne_nil hne
  have hstop : ¬ (!p b) = true := by simp [hbs b List.mem_cons_self]
  rw [List.append_assoc, List.takeWhile_append_of_pos hplain, List.dropWhile_append_of_pos hplain]
  exact ⟨by simp [List.takeWhile_cons_of_neg, hstop], by simp [List.dropWhile_cons_of_neg, hstop]⟩

end

/-- A layout as it comes from the lines of a text with imports: its region is where the imports of the header are. -/
structure Layout.Delimited (l : Layout) : Prop where
  opens : ∀ line ∈ l.head ++ l.region, isHeaderLine line = true
  head : ∀ line ∈ l.head, isImport line = false
  body : headerShows importTarget? l.body = []

theorem importTarget?_eq_none {l : Text} (h : isImport l = false) : importTarget? l = none := by
  simpa [isImport] using h

theorem filterMap_importTarget?_eq_nil {ls : List Text} (h : ∀ l ∈ ls, isImport l = false) :
    ls.filterMap importTarget? = [] :=
  List.filterMap_eq_nil_iff.2 fun l hl => importTarget?_eq_none (h l hl)

theorem layoutLines_package (ls : List Text) : (layoutLines ls).package = (headerShows packageClause? ls).getLast? := by
  unfold layoutLines
  simp only
  split <;> rfl

/-- **A region runs from the first import of the header to the last.** -/
theorem delimited_layoutLines {ls : List Text} (h : (layoutLines ls).region ≠ []) : (layoutLines ls).Delimited := by
  have hheader : ∀ l ∈ ls.takeWhile isHeaderLine, isHeaderLine l = true := List.all_eq_true.1 List.all_takeWhile
  have hrest : headerShows importTarget? (ls.dropWhile isHeaderLine) = [] := by
    have hstop : (ls.dropWhile isHeaderLine).takeWhile isHeaderLine = [] := by
      cases hrest : ls.dropWhile isHeaderLine with
      | nil => rfl
      | cons l rest => exact List.takeWhile_cons_of_neg (not_of_dropWhile_cons hrest)
    rw [headerShows, hstop, List.filterMap_nil]
  unfold layoutLines at h ⊢
  simp only at h ⊢
  split at h
  · rename_i hany
    rw [if_pos hany]
    generalize ls.takeWhile isHeaderLine = header at hheader h
    have hsplit : header = header.takeWhile (fun l => !isImport l)
        ++ ((header.dropWhile fun l => !isImport l).reverse.dropWhile fun l => !isImport l).reverse
        ++ ((header.dropWhile fun l => !isImport l).reverse.takeWhile fun l => !isImport l).reverse := by
      rw [List.append_assoc, ← List.reverse_append, List.takeWhile_append_dropWhile, List.reverse_reverse,
        List.takeWhile_append_dropWhile]
    have hnone {ks : List Text} : ∀ l ∈ ks.takeWhile (fun l => !isImport l), isImport l = false := fun l hl => by
      simpa using List.all_eq_true.1 List.all_takeWhile l hl
    refine ⟨fun l hl => hheader l ?_, hnone, ?_⟩
    · rw [hsplit]
      exact List.mem_append_left _ hl
    · rw [headerShows_append fun l hl => hheader l (hsplit ▸ List.mem_append_right _ hl),
        filterMap_importTarget?_eq_nil fun l hl => hnone l (List.mem_reverse.1 hl), hrest]
      rfl
  · exact absurd rfl h

/-- A text whose header shows no import has no region. -/
theorem region_eq_nil_of_headerShows {ls : List Text} (h : headerShows importTarget? ls = []) :
    (layoutLines ls).region = [] := by
  have hnone : (ls.takeWhile isHeaderLine).any isImport = false := by
    rw [List.any_eq_false]
    intro l hl
    rw [isImport, List.filterMap_eq_nil_iff.1 h l hl]
    simp
  simp [layoutLines, hnone]

/-- **Imports in a row are the region** of a text if the lines above them are lines of a header without imports and the
    scan finds no import below them. -/
theorem layoutLines_of_block {head imports body : List Text}
    (hhead : ∀ l ∈ head, isHeaderLine l = true ∧ isImport l = false) (hne : imports ≠ [])
    (himports : ∀ l ∈ imports, isImport l = true) (hbody : headerShows importTarget? body = []) :
    layoutLines (head ++ imports ++ body) =
      ⟨(headerShows packageClause? (head ++ imports ++ body)).getLast?, head, imports, body⟩ := by
  have hlines : ∀ l ∈ head ++ imports, isHeaderLine l = true := by
    intro l hl
    rcases List.mem_append.1 hl with hl | hl
    · exact (hhead l hl).1
    · simp [isHeaderLine, himports l hl]
  have hbelow : ∀ l ∈ body.takeWhile isHeaderLine, isImport l = false := by
    intro l hl
    rw [isImport, List.filterMap_eq_nil_iff.1 hbody l hl]
    rfl
  have hheader : (head ++ imports ++ body).takeWhile isHeaderLine = head ++ imports ++ body.takeWhile isHeaderLine :=
    List.takeWhile_append_of_pos hlines
  have hrest : (head ++ imports ++ body).dropWhile isHeaderLine = body.dropWhile isHeaderLine :=
    List.dropWhile_append_of_pos hlines
  have hany : (head ++ imports ++ body.takeWhile isHeaderLine).any isImport = true := by
    obtain ⟨l, hl⟩ := List.exists_mem_of_ne_nil imports hne
    exact List.any_eq_true.2 ⟨l, by simp [hl], himports l hl⟩
  obtain ⟨habove, hfrom⟩ := span_block (fun l hl => (hhead l hl).2) hne himports (body.takeWhile isHeaderLine)
  -- The end of the region is found from behind.
  have hlast : ∀ l ∈ imports.reverse, isImport l = true := fun l hl => himports l (List.mem_reverse.1 hl)
  obtain ⟨htail, hregion⟩ := span_block (fun l hl => hbelow l (List.mem_reverse.1 hl)) (by simpa using hne) hlast []
  rw [List.append_nil, ← List.reverse_append] at htail hregion
  rw [List.append_nil] at hregion
  unfold layoutLines
  simp only [hheader, hrest, hany, habove, hfrom, htail, hregion, if_true, List.reverse_reverse,
    List.takeWhile_append_dropWhile, headerShows]

/-! ## Rebuilt texts -/

theorem isImport_importLine {target : Text} (h : Spaced target) : isImport (importLine target) = true := by
  have htarget := target?_importLine h
  rw [target?, Option.map_eq_some_iff] at htarget
  obtain ⟨found, hfound, -⟩ := htarget
  rw [isImport, hfound]
  rfl

/-- A line is not both a package clause and an import. -/
theorem packageClause?_of_isImport {l : Text} (h : isImport l = true) : packageClause? l = none := by
  obtain ⟨target, htarget⟩ := Option.isSome_iff_exists.1 h
  simp only [importTarget?, Option.bind_eq_bind, Option.bind_eq_some_iff] at htarget
  obtain ⟨rest, hrest, -⟩ := htarget
  have hline : trim l = text "import " ++ rest := dropPrefix?_eq_some.1 hrest
  rw [packageClause?, hline]
  rfl

theorem filterMap_target?_importLines {targets : List Text} (h : ∀ target ∈ targets, Spaced target) :
    (targets.map importLine).filterMap target? = targets := by
  rw [List.filterMap_map]
  induction targets with
  | nil => rfl
  | cons target targets ih =>
    obtain ⟨htarget, htargets⟩ := List.forall_mem_cons.1 h
    rw [List.filterMap_cons_some (f := target? ∘ importLine) (target?_importLine htarget), ih htargets]

section
variable {α : Type} {f : Text → Option α} (hf : ∀ l, isBlankLine l = true → f l = none) {l : Layout}
  {targets : List Text} {terminated : Bool}

theorem Layout.cut_of_region (hregion : l.region ≠ []) : l.cut = (l.head, l.body) := by
  simp [Layout.cut, hregion]

include hf in
theorem headerShows_rest (hregion : l.region ≠ []) (terminated : Bool) :
    headerShows f (l.rest terminated) = headerShows f l.body := by
  rw [Layout.rest, Layout.cut_of_region hregion, headerShows_dropWhile_blank hf]
  split
  · rename_i h
    obtain ⟨ls, hls⟩ := List.getLast?_eq_some_iff.1 (by simpa using (Bool.and_eq_true_iff.1 h).2 : l.body.getLast? = some [])
    rw [hls, List.dropLast_concat, headerShows_concat_nil hf]
  · rfl

theorem isImport_strays (l : Layout) : ∀ line ∈ l.strays, isImport line = false := fun line hline => by
  have h := (List.mem_filter.1 hline).2
  simp only [Bool.and_eq_true, Bool.not_eq_true'] at h
  exact h.2

theorem isHeaderLine_strays (hl : l.Delimited) : ∀ line ∈ l.strays, isHeaderLine line = true :=
  fun line hline => hl.opens line (List.mem_append_right _ (List.mem_of_mem_filter hline))

theorem isHeaderLine_dropBlankEnd (hl : l.Delimited) :
    ∀ line ∈ dropBlankEnd l.head, isHeaderLine line = true := fun line hline => by
  obtain ⟨blanks, hhead, -⟩ := exists_blanks_dropBlankEnd l.head
  exact hl.opens line (List.mem_append_left _ (hhead ▸ List.mem_append_left _ hline))

theorem isHeaderLine_block (h : ∀ target ∈ targets, Spaced target) : ∀ line ∈ block targets, isHeaderLine line = true := by
  intro line hline
  obtain ⟨target, htarget, rfl⟩ := List.mem_map.1 hline
  have himport : isImport (importLine target) = true := isImport_importLine (h target (mem_sortTargets.1 htarget))
  exact Bool.or_eq_true_iff.2 (.inl (Bool.or_eq_true_iff.2 (.inr himport)))

include hf in
/-- **What a rebuilt text shows in its header**: what the head shows, then the block, the strays and the body. -/
theorem headerShows_rebuild (hl : l.Delimited) (hregion : l.region ≠ []) (htargets : ∀ target ∈ targets, Spaced target)
    (hlines : ∀ line ∈ l.head ++ l.region ++ l.body, '\n' ∉ line) (hnewline : ∀ target ∈ targets, '\n' ∉ target) :
    headerShows f (splitOn '\n' (rebuild l targets terminated)) =
      l.head.filterMap f ++ (block targets).filterMap f ++ l.strays.filterMap f ++ headerShows f l.body := by
  have hsections : headerShows f (spaced (shownSections l targets terminated)) =
      l.head.filterMap f ++ (block targets).filterMap f ++ l.strays.filterMap f ++ headerShows f l.body := by
    have hbody : headerShows f (spaced ([l.rest terminated].filter fun s => !s.isEmpty)) = headerShows f l.body := by
      rw [← headerShows_rest hf hregion terminated]
      cases l.rest terminated <;> rfl
    rw [shownSections, Layout.sections, Layout.cut_of_region hregion, headerShows_spaced_cons hf (isHeaderLine_dropBlankEnd hl),
      headerShows_spaced_cons hf (isHeaderLine_block htargets), headerShows_spaced_cons hf (isHeaderLine_strays hl), hbody,
      filterMap_dropBlankEnd hf]
    simp only [List.append_assoc]
  rw [← hsections]
  by_cases hne : shownSections l targets terminated = []
  · rw [rebuild_eq, show (l.sections targets terminated).filter (fun s => !s.isEmpty) = [] from hne, hne]
    cases terminated with
    | false => exact headerShows_blank_cons hf rfl []
    | true => exact (headerShows_blank_cons hf rfl [[]]).trans (headerShows_blank_cons hf rfl [])
  · rw [splitOn_rebuild hlines hnewline hne]
    cases terminated with
    | false => rw [if_neg (by simp), List.append_nil]
    | true => exact headerShows_concat_nil hf _

theorem filterMap_packageClause?_strays (l : Layout) :
    l.strays.filterMap packageClause? = l.region.filterMap packageClause? := by
  rw [Layout.strays]
  induction l.region with
  | nil => rfl
  | cons line lines ih =>
    rw [List.filter_cons]
    split
    · rw [List.filterMap_cons, List.filterMap_cons, ih]
    · rename_i h
      have hnone : packageClause? line = none := by
        cases hblank : isBlankLine line with
        | true => exact packageClause?_of_blank hblank
        | false => exact packageClause?_of_isImport (by simpa [hblank] using h)
      rw [List.filterMap_cons_none hnone, ih]

/-- **Rebuilding keeps the package clauses.** -/
theorem package_rebuild (hl : l.Delimited) (hregion : l.region ≠ []) (htargets : ∀ target ∈ targets, Spaced target)
    (hlines : ∀ line ∈ l.head ++ l.region ++ l.body, '\n' ∉ line) (hnewline : ∀ target ∈ targets, '\n' ∉ target) :
    (layout (rebuild l targets terminated)).package =
      (headerShows packageClause? (l.head ++ l.region ++ l.body)).getLast? := by
  have hblock : (block targets).filterMap packageClause? = [] := List.filterMap_eq_nil_iff.2 fun line hline => by
    obtain ⟨target, htarget, rfl⟩ := List.mem_map.1 hline
    exact packageClause?_of_isImport (isImport_importLine (htargets target (mem_sortTargets.1 htarget)))
  rw [layout, layoutLines_package,
    headerShows_rebuild (fun _ => packageClause?_of_blank) hl hregion htargets hlines hnewline, headerShows_append hl.opens,
    List.filterMap_append, hblock, List.append_nil, filterMap_packageClause?_strays]

/-- A section with the empty line that parts it from the next one. -/
def above (s : List Text) : List Text := if s.isEmpty then [] else s ++ [[]]

/-- A section with the empty line that parts it from the one before. -/
def below (s : List Text) : List Text := if s.isEmpty then [] else [] :: s

theorem spaced_around (a : List Text) {b : List Text} (hb : b ≠ []) (c d : List Text) :
    spaced ([a, b, c, d].filter fun s => !s.isEmpty) = above a ++ b ++ (below c ++ below d) := by
  obtain ⟨x, b, rfl⟩ := List.exists_cons_of_ne_nil hb
  cases a <;> cases c <;> cases d <;> simp [spaced, above, below]

theorem headerShows_below {s : List Text} (hf : ∀ l, isBlankLine l = true → f l = none) :
    headerShows f (below s) = headerShows f s := by
  cases s with
  | nil => rfl
  | cons line lines => exact headerShows_blank_cons hf rfl _

/-- The lines above a rebuilt block are header lines and no imports. -/
theorem header_above (hl : l.Delimited) :
    ∀ line ∈ above (dropBlankEnd l.head), isHeaderLine line = true ∧ isImport line = false := by
  intro line hline
  unfold above at hline
  split at hline
  · cases hline
  · rcases List.mem_append.1 hline with hline | hline
    · obtain ⟨blanks, hhead, -⟩ := exists_blanks_dropBlankEnd l.head
      exact ⟨isHeaderLine_dropBlankEnd hl line hline, hl.head line (hhead ▸ List.mem_append_left _ hline)⟩
    · rw [List.mem_singleton.1 hline]
      decide

/-- So are the strays below it. -/
theorem header_below (hl : l.Delimited) :
    ∀ line ∈ below l.strays, isHeaderLine line = true ∧ isImport line = false := by
  intro line hline
  unfold below at hline
  split at hline
  · cases hline
  · rcases List.mem_cons.1 hline with rfl | hline
    · decide
    · exact ⟨isHeaderLine_strays hl line hline, isImport_strays l line hline⟩

/-- Below a rebuilt block no import is seen. -/
theorem importTarget?_below (hl : l.Delimited) (hregion : l.region ≠ []) (terminated : Bool) :
    headerShows importTarget? (below l.strays ++ below (l.rest terminated) ++ if terminated then [[]] else []) = [] := by
  have hparts : headerShows importTarget? (below l.strays ++ below (l.rest terminated)) = [] := by
    rw [headerShows_append fun line hline => (header_below hl line hline).1,
      filterMap_importTarget?_eq_nil fun line hline => (header_below hl line hline).2,
      headerShows_below fun _ => importTarget?_of_blank, headerShows_rest (fun _ => importTarget?_of_blank) hregion,
      hl.body]
    rfl
  cases terminated with
  | false => rwa [if_neg (by simp), List.append_nil]
  | true => rw [if_pos rfl, headerShows_concat_nil fun _ => importTarget?_of_blank, hparts]

/-- **The block of a rebuilt text is its region.** -/
theorem layout_rebuild (hl : l.Delimited) (hregion : l.region ≠ []) (hne : targets ≠ [])
    (htargets : ∀ target ∈ targets, Spaced target)
    (hlines : ∀ line ∈ l.head ++ l.region ++ l.body, '\n' ∉ line) (hnewline : ∀ target ∈ targets, '\n' ∉ target) :
    layout (rebuild l targets terminated) =
      ⟨(headerShows packageClause? (l.head ++ l.region ++ l.body)).getLast?, above (dropBlankEnd l.head), block targets,
        below l.strays ++ below (l.rest terminated) ++ if terminated then [[]] else []⟩ := by
  have hblock : block targets ≠ [] := by
    obtain ⟨target, htarget⟩ := List.exists_mem_of_ne_nil targets hne
    exact List.ne_nil_of_mem (List.mem_map.2 ⟨target, mem_sortTargets.2 htarget, rfl⟩)
  have hshown : shownSections l targets terminated ≠ [] :=
    List.ne_nil_of_mem (mem_shownSections.2 ⟨by simp [Layout.sections], hblock⟩)
  have htext : splitOn '\n' (rebuild l targets terminated) = above (dropBlankEnd l.head) ++ block targets
      ++ (below l.strays ++ below (l.rest terminated) ++ if terminated then [[]] else []) := by
    rw [splitOn_rebuild hlines hnewline hshown, shownSections, Layout.sections, Layout.cut_of_region hregion,
      spaced_around _ hblock, List.append_assoc]
  have himports : ∀ line ∈ block targets, isImport line = true := fun line hline => by
    obtain ⟨target, htarget, rfl⟩ := List.mem_map.1 hline
    exact isImport_importLine (htargets target (mem_sortTargets.1 htarget))
  have hlayout := layoutLines_of_block (header_above hl) hblock himports (importTarget?_below hl hregion terminated)
  rw [← htext, ← layoutLines_package, show layoutLines (splitOn '\n' (rebuild l targets terminated)) =
    layout (rebuild l targets terminated) from rfl, package_rebuild hl hregion htargets hlines hnewline] at hlayout
  exact hlayout

/-- Without targets there is no region. -/
theorem region_rebuild_nil (hl : l.Delimited) (hregion : l.region ≠ [])
    (hlines : ∀ line ∈ l.head ++ l.region ++ l.body, '\n' ∉ line) :
    (layout (rebuild l [] terminated)).region = [] := by
  refine region_eq_nil_of_headerShows ?_
  rw [headerShows_rebuild (fun _ => importTarget?_of_blank) hl hregion (by simp) hlines (by simp), hl.body,
    filterMap_importTarget?_eq_nil hl.head, filterMap_importTarget?_eq_nil (isImport_strays l)]
  rfl

end

end JavaMend.Java
