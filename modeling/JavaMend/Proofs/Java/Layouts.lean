import JavaMend.Proofs.Java.Declared
import JavaMend.Proofs.Java.Shortening

/-!
# `Proofs.Java.Layouts` — layouts of shortened texts and the imports of rebuilt ones

A layout depends on which lines are header lines and which import something, and shortening changes neither; so a text
with a shortened body has the layout it had. A rebuilt text consists of four sections, and its imports are those that
are read in the sections one after another.

## Contents
- **Layouts.** `drops_layoutLines`, `layoutLines_replace_body`.
- **Sections.** `Layout.cut`, `Layout.strays`, `Layout.sections`; `rebuild_eq`, `splitOn_rebuild`,
  `mem_splitOn_rebuild`.
- **Imports.** `declaredImports_rebuild`.
-/

namespace JavaMend.Java

open JavaMend Text

/-! ## Layouts -/

section
variable {α : Type} {R : α → α → Prop} {p : α → Bool} {as bs : List α}

theorem forall₂_takeWhile (hp : ∀ a b, R a b → p b = p a) (h : List.Forall₂ R as bs) :
    List.Forall₂ R (as.takeWhile p) (bs.takeWhile p) := by
  induction h with
  | nil => exact .nil
  | cons hab _ ih =>
    rw [List.takeWhile_cons, List.takeWhile_cons, hp _ _ hab]
    split
    · exact .cons hab ih
    · exact .nil

theorem forall₂_dropWhile (hp : ∀ a b, R a b → p b = p a) (h : List.Forall₂ R as bs) :
    List.Forall₂ R (as.dropWhile p) (bs.dropWhile p) := by
  induction h with
  | nil => exact .nil
  | cons hab h ih =>
    rw [List.dropWhile_cons, List.dropWhile_cons, hp _ _ hab]
    split
    · exact ih
    · exact .cons hab h

theorem not_of_dropWhile_cons {a : α} (h : as.dropWhile p = a :: bs) : ¬ p a = true := by
  have hhead := List.head_dropWhile_not p (l := as) (by simp [h])
  simpa [h] using hhead

theorem any_of_forall₂ (hp : ∀ a b, R a b → p b = p a) (h : List.Forall₂ R as bs) : bs.any p = as.any p := by
  induction h with
  | nil => rfl
  | cons hab _ ih => rw [List.any_cons, List.any_cons, hp _ _ hab, ih]

end

/-- The lines of one layout come from those of another by dropping packages. -/
structure Layout.Drops (l k : Layout) : Prop where
  head : List.Forall₂ Java.Drops l.head k.head
  region : List.Forall₂ Java.Drops l.region k.region
  body : List.Forall₂ Java.Drops l.body k.body

/-- **Lines that drop packages keep their layout.** -/
theorem drops_layoutLines {ls ks : List Text} (h : List.Forall₂ Drops ls ks) :
    (layoutLines ls).Drops (layoutLines ks) := by
  have hline (l k : Text) (h : Drops l k) : isHeaderLine k = isHeaderLine l := h.isHeaderLine
  have himport (l k : Text) (h : Drops l k) : isImport k = isImport l := h.isImport
  have hnot (l k : Text) (h : Drops l k) : (!isImport k) = !isImport l := by rw [h.isImport]
  have hheader := forall₂_takeWhile hline h
  have hrest := forall₂_dropWhile hline h
  unfold layoutLines
  simp only [any_of_forall₂ himport hheader]
  split
  · have hfirst := List.rel_reverse (forall₂_dropWhile hnot hheader)
    exact ⟨forall₂_takeWhile hnot hheader, List.rel_reverse (forall₂_dropWhile hnot hfirst),
      List.rel_append (List.rel_reverse (forall₂_takeWhile hnot hfirst)) hrest⟩
  · exact ⟨.nil, .nil, h⟩

/-- Dropping packages in the body leaves the rest of the layout as it is. -/
theorem layoutLines_replace_body {ls ks : List Text} (h : List.Forall₂ Drops (layoutLines ls).body ks) :
    (layoutLines ((layoutLines ls).head ++ (layoutLines ls).region ++ ks)).head = (layoutLines ls).head
      ∧ (layoutLines ((layoutLines ls).head ++ (layoutLines ls).region ++ ks)).region = (layoutLines ls).region
      ∧ (layoutLines ((layoutLines ls).head ++ (layoutLines ls).region ++ ks)).body = ks := by
  generalize hk : (layoutLines ls).head ++ (layoutLines ls).region ++ ks = ms
  have hall : List.Forall₂ Drops ls ms := by
    rw [← layoutLines_lines ls, ← hk]
    exact List.rel_append (List.forall₂_same.2 fun l _ => .refl l) h
  obtain ⟨hhead, hregion, -⟩ := drops_layoutLines hall
  have hlines := (layoutLines_lines ms).trans hk.symm
  rw [List.append_assoc, List.append_assoc] at hlines
  obtain ⟨h1, hlines⟩ := List.append_inj hlines hhead.length_eq.symm
  obtain ⟨h2, h3⟩ := List.append_inj hlines hregion.length_eq.symm
  exact ⟨h1, h2, h3⟩

/-- An empty line below a region that ends the text becomes the body. -/
theorem layoutLines_append_nil {ls : List Text} (hregion : (layoutLines ls).region ≠ [])
    (hbody : (layoutLines ls).body = []) : layoutLines (ls ++ [[]]) = { layoutLines ls with body := [[]] } := by
  unfold layoutLines at hregion hbody ⊢
  simp only at hregion hbody ⊢
  split at hbody
  · rename_i hany
    obtain ⟨htail, hrest⟩ := List.append_eq_nil_iff.1 hbody
    have hall : ∀ l ∈ ls, isHeaderLine l = true := List.dropWhile_eq_nil_iff.1 hrest
    have hnone : isImport [] = false := by decide
    have hall' : ∀ l ∈ ls ++ [[]], isHeaderLine l = true := by
      intro l hl
      rcases List.mem_append.1 hl with hl | hl
      · exact hall l hl
      · rw [List.mem_singleton.1 hl]
        decide
    rw [List.takeWhile_eq_self_iff.2 hall] at hany htail ⊢
    rw [List.takeWhile_eq_self_iff.2 hall', List.dropWhile_eq_nil_iff.2 hall']
    obtain ⟨l, hl, himport⟩ := List.any_eq_true.1 hany
    have hsome : ¬ ∀ l ∈ ls, (!isImport l) = true := fun h => absurd (h l hl) (by simp [himport])
    have hdrop : ls.dropWhile (fun l => !isImport l) ≠ [] := fun h => hsome (List.dropWhile_eq_nil_iff.1 h)
    have htake : (ls.takeWhile fun l => !isImport l).length ≠ ls.length := fun h =>
      hsome (List.takeWhile_eq_self_iff.1 ((List.takeWhile_prefix _).eq_of_length h))
    have hpackage : packageClause? [] = none := by decide
    simp [List.takeWhile_append, List.dropWhile_append, htake, hdrop, htail, hnone, hany, hpackage]
  · rename_i hany
    simp [hany] at hregion

/-- The import region is empty only if there is no import to open it, and then everything is body. -/
theorem layoutLines_of_region_eq_nil {ls : List Text} (h : (layoutLines ls).region = []) :
    (layoutLines ls).head = [] ∧ (layoutLines ls).body = ls := by
  unfold layoutLines at h ⊢
  simp only at h ⊢
  split
  · rename_i hany
    rw [if_pos hany] at h
    have hfirst := List.dropWhile_eq_nil_iff.1 (List.reverse_eq_nil_iff.1 h)
    obtain ⟨l, hl, himport⟩ := List.any_eq_true.1 hany
    have hnone : ∀ l ∈ ls.takeWhile isHeaderLine, (!isImport l) = true := by
      intro l hl
      rw [← List.takeWhile_append_dropWhile (p := fun l => !isImport l) (l := ls.takeWhile isHeaderLine)] at hl
      rcases List.mem_append.1 hl with hl | hl
      · exact List.all_eq_true.1 List.all_takeWhile l hl
      · exact hfirst l (List.mem_reverse.2 hl)
    have hno := hnone l hl
    simp [himport] at hno
  · exact ⟨rfl, rfl⟩

/-! ## Sections -/

namespace Layout

/-- The lines before and after the import block of a rebuilt text. -/
def cut (l : Layout) : List Text × List Text :=
  if l.region.isEmpty then splitAtPackage l.body else (l.head, l.body)

/-- The lines among the imports that are neither blank nor imports. -/
def strays (l : Layout) : List Text := l.region.filter fun line => !isBlankLine line && !isImport line

/-- The lines that open the body of a rebuilt text. -/
def rest (l : Layout) (terminated : Bool) : List Text :=
  (if terminated && l.cut.2.getLast? == some [] then l.cut.2.dropLast else l.cut.2).dropWhile isBlankLine

/-- The sections of a rebuilt text. -/
def sections (l : Layout) (targets : List Text) (terminated : Bool) : List (List Text) :=
  [dropBlankEnd l.cut.1, block targets, l.strays, l.rest terminated]

end Layout

/-- Cutting at the package clause loses no line. -/
theorem splitAtPackage_lines (ls : List Text) : (splitAtPackage ls).1 ++ (splitAtPackage ls).2 = ls := by
  unfold splitAtPackage
  simp only
  split
  · rw [List.append_assoc, List.take_append_drop, List.takeWhile_append_dropWhile]
  · rfl

theorem mem_cut {l : Layout} {line : Text} (h : line ∈ l.cut.1 ∨ line ∈ l.cut.2) : line ∈ l.head ++ l.region ++ l.body := by
  unfold Layout.cut at h
  split at h
  · have hline : line ∈ l.body := by
      rw [← splitAtPackage_lines l.body]
      exact List.mem_append.2 h
    exact List.mem_append_right _ hline
  · rcases h with h | h
    · exact List.mem_append_left _ (List.mem_append_left _ h)
    · exact List.mem_append_right _ h

theorem mem_rest {l : Layout} {terminated : Bool} {line : Text} (h : line ∈ l.rest terminated) : line ∈ l.cut.2 := by
  have h := (List.dropWhile_sublist _).subset h
  split at h
  · exact List.dropLast_subset _ h
  · exact h

/-- Rebuilding writes the sections that are not empty. -/
theorem rebuild_eq (l : Layout) (targets : List Text) (terminated : Bool) :
    rebuild l targets terminated =
      joinWith (text "\n\n") (((l.sections targets terminated).filter fun s => !s.isEmpty).map (joinWith ['\n']))
        ++ (if terminated then ['\n'] else []) := rfl

/-! ### Lines of sections -/

/-- The line of a block that imports a target. -/
def importLine (target : Text) : Text := text "import " ++ target ++ [';']

theorem block_eq (targets : List Text) : block targets = (sortTargets targets).map importLine := rfl

theorem newline_not_mem_block {targets : List Text} (h : ∀ target ∈ targets, '\n' ∉ target) :
    ∀ line ∈ block targets, '\n' ∉ line := by
  intro line hline
  obtain ⟨target, htarget, rfl⟩ := List.mem_map.1 hline
  have hword : '\n' ∉ text "import " := by decide
  simp [hword, h target (mem_sortTargets.1 htarget)]

/-- No section holds a line end within a line. -/
theorem newline_not_mem_sections {l : Layout} {targets : List Text} (terminated : Bool)
    (hlines : ∀ line ∈ l.head ++ l.region ++ l.body, '\n' ∉ line) (htargets : ∀ target ∈ targets, '\n' ∉ target) :
    ∀ s ∈ l.sections targets terminated, ∀ line ∈ s, '\n' ∉ line := by
  intro s hs line hline
  simp only [Layout.sections, List.mem_cons, List.not_mem_nil, or_false] at hs
  rcases hs with rfl | rfl | rfl | rfl
  · have hcut := (List.dropWhile_sublist isBlankLine).subset (List.mem_reverse.1 hline)
    exact hlines line (mem_cut (.inl (List.mem_reverse.1 hcut)))
  · exact newline_not_mem_block htargets line hline
  · exact hlines line (List.mem_append_left _ (List.mem_append_right _ (List.mem_of_mem_filter hline)))
  · exact hlines line (mem_cut (.inr (mem_rest hline)))

theorem splitOn_joinWith_sections {ss : List (List Text)} (hne : ∀ s ∈ ss, s ≠ [])
    (hl : ∀ s ∈ ss, ∀ l ∈ s, '\n' ∉ l) :
    ss ≠ [] → splitOn '\n' (joinWith (text "\n\n") (ss.map (joinWith ['\n']))) = spaced ss := by
  induction ss with
  | nil => exact absurd rfl
  | cons s ss ih =>
    intro _
    have hs := splitOn_joinWith (hne s List.mem_cons_self) (hl s List.mem_cons_self)
    cases ss with
    | nil => simpa [joinWith, spaced] using hs
    | cons r rs =>
      have hrest := ih (fun r hr => hne r (List.mem_cons_of_mem s hr)) (fun r hr => hl r (List.mem_cons_of_mem s hr))
        (by simp)
      have hcons (t : Text) : splitOn '\n' ('\n' :: t) = [] :: splitOn '\n' t := by simp [splitOn]
      rw [List.map_cons, List.map_cons, joinWith, ← List.map_cons, spaced, List.append_assoc, ← hrest, ← hcons]
      exact (splitOn_append '\n' _ _).trans (by rw [hs]; rfl)

theorem mem_spaced {ss : List (List Text)} {s : List Text} {line : Text} (hs : s ∈ ss) (hline : line ∈ s) :
    line ∈ spaced ss := by
  induction ss with
  | nil => cases hs
  | cons r rs ih =>
    cases rs with
    | nil =>
      rw [List.mem_singleton.1 hs] at hline
      exact hline
    | cons q qs =>
      rw [spaced, List.mem_append]
      rcases List.mem_cons.1 hs with rfl | hs
      · exact .inl hline
      · exact .inr (List.mem_cons_of_mem _ (ih hs))

/-- The sections that a rebuilt text shows. -/
def shownSections (l : Layout) (targets : List Text) (terminated : Bool) : List (List Text) :=
  (l.sections targets terminated).filter fun s => !s.isEmpty

theorem mem_shownSections {l : Layout} {targets : List Text} {terminated : Bool} {s : List Text} :
    s ∈ shownSections l targets terminated ↔ s ∈ l.sections targets terminated ∧ s ≠ [] := by
  rw [shownSections, List.mem_filter]
  cases s <;> simp

/-- The lines of a rebuilt text, up to an empty one at the end. -/
theorem splitOn_rebuild {l : Layout} {targets : List Text} {terminated : Bool}
    (hlines : ∀ line ∈ l.head ++ l.region ++ l.body, '\n' ∉ line) (htargets : ∀ target ∈ targets, '\n' ∉ target)
    (hne : shownSections l targets terminated ≠ []) :
    splitOn '\n' (rebuild l targets terminated) =
      spaced (shownSections l targets terminated) ++ (if terminated then [[]] else []) := by
  have hnewline := newline_not_mem_sections terminated hlines htargets
  have hshown := splitOn_joinWith_sections (fun s hs => (mem_shownSections.1 hs).2)
    (fun s hs => hnewline s (mem_shownSections.1 hs).1) hne
  rw [rebuild_eq, ← hshown]
  cases terminated with
  | false => simp [shownSections]
  | true => exact splitOn_append '\n' _ []

theorem importsOf_sections (l : Layout) (targets : List Text) (terminated : Bool) :
    importsOf .code (l.sections targets terminated) = importsOf .code [l.cut.1, block targets, l.strays, l.cut.2] := by
  have hrest {m : Mode} (hm : m.Settled) : importsFrom m (l.rest terminated) = importsFrom m l.cut.2 := by
    unfold Layout.rest
    rw [importsFrom_dropWhile_blank hm]
    split
    · rename_i h
      simp only [Bool.and_eq_true, beq_iff_eq] at h
      obtain ⟨ls, hls⟩ := List.getLast?_eq_some_iff.1 h.2
      have hlast : importsFrom (exits m ls) [[]] = [] := importsFrom_blanks (by simp [isBlankLine])
      rw [hls, List.dropLast_concat, importsFrom_append, hlast, List.append_nil]
    · rfl
  have hhead : (Mode.code).opensLine = true := rfl
  have hstrays := opensLine_exit (exits (exit (exits .code l.cut.1) []) (block targets)) []
  simp only [Layout.sections, importsOf, importsFrom_dropBlankEnd, exit_exits_dropBlankEnd hhead,
    hrest (settled_exit (opensLine_exits hstrays _))]

/-- **The imports of a rebuilt text** are those of its head, of the block, of the strays and of the body, read in a
    row. -/
theorem declaredImports_rebuild {l : Layout} {targets : List Text} (terminated : Bool)
    (hlines : ∀ line ∈ l.head ++ l.region ++ l.body, '\n' ∉ line) (htargets : ∀ target ∈ targets, '\n' ∉ target) :
    declaredImports (rebuild l targets terminated) = importsOf .code [l.cut.1, block targets, l.strays, l.cut.2] := by
  have hsections : importsOf .code [l.cut.1, block targets, l.strays, l.cut.2] =
      importsFrom .code (spaced (shownSections l targets terminated)) := by
    rw [importsFrom_spaced, shownSections, importsOf_filter (show exit .code [] = .code from rfl), importsOf_sections]
  rw [declaredImports_eq, hsections]
  by_cases hne : shownSections l targets terminated = []
  · rw [rebuild_eq, show (l.sections targets terminated).filter (fun s => !s.isEmpty) = [] from hne, hne]
    refine importsFrom_blanks fun line hline => ?_
    cases terminated <;> simp_all [joinWith, splitOn, isBlankLine]
  · rw [splitOn_rebuild hlines htargets hne, importsFrom_append]
    have hblank {m : Mode} : importsFrom m (if terminated then [[]] else []) = [] :=
      importsFrom_blanks (by cases terminated <;> simp [isBlankLine])
    rw [hblank, List.append_nil]

end JavaMend.Java
