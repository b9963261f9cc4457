import JavaMend.Proofs.Java.Layouts

/-!
# `Proofs.Java.Repaired` — what import repair writes

Repair shortens names in the body of a text and writes the text anew around one import block. The parts it works with
are named here, and `fixImports_eq` gives the result in terms of them.

## Contents
- **Parts.** `bodyText`, `bindingsOf`, `shortenedNames`, `shortenedBody`, `keptImports`, `shortenedLayout`.
- **The result.** `layout_shortenedText`, `fixImports_eq`.
- **Lines.** `newline_not_mem_shortenedLayout`, `newline_not_mem_keptImports`.
-/

namespace JavaMend.Java

open JavaMend Text

/-! ## Parts -/

/-- The text below the import region. -/
def bodyText (t : Text) : Text := joinWith ['\n'] (layout t).body

/-- The simple names that the scan of a text sees bound. -/
def bindingsOf (t : Text) : Bindings :=
  ⟨hits findDeclared (bodyText t) ++ hits findDeclared (joinWith ['\n'] (layout t).upToRegion), (layout t).imports⟩

/-- The occurrences of qualified names that repair shortens. -/
def shortenedNames (t : Text) : List Qualified :=
  (qualifiedNames (bodyText t)).filter (usable (bindingsOf t) (qualifiedNames (bodyText t)))

/-- The body after shortening. -/
def shortenedBody (t : Text) : Text := (shorten (bindingsOf t) (bodyText t)).1

/-- The targets that repair writes into the import block. -/
def keptImports (t : Text) : List Text :=
  ((layout t).imports ++ (shortenedNames t).map Qualified.full).filter fun target =>
    !isRedundant (layout t).package target

/-- The layout of a text with its body shortened. -/
def shortenedLayout (t : Text) : Layout := { layout t with body := splitOn '\n' (shortenedBody t) }

@[simp] theorem shortenedLayout_head (t : Text) : (shortenedLayout t).head = (layout t).head := rfl

@[simp] theorem shortenedLayout_region (t : Text) : (shortenedLayout t).region = (layout t).region := rfl

@[simp] theorem shortenedLayout_body (t : Text) : (shortenedLayout t).body = splitOn '\n' (shortenedBody t) := rfl

/-! ## The result -/

theorem splitOn_bodyText {t : Text} (h : (layout t).body ≠ []) : splitOn '\n' (bodyText t) = (layout t).body := by
  refine splitOn_joinWith h fun line hline => newline_not_mem_splitOn (t := t) ?_
  rw [← layoutLines_lines (splitOn '\n' t)]
  exact List.mem_append_right _ hline

theorem newline_not_mem_layout {t line : Text}
    (h : line ∈ (layout t).head ++ (layout t).region ++ (layout t).body) : '\n' ∉ line := by
  rw [layout, layoutLines_lines] at h
  exact newline_not_mem_splitOn h

/-- The body has lines if there is no region. -/
theorem body_ne_nil {t : Text} (h : (layout t).region = []) : (layout t).body ≠ [] := by
  rw [show (layout t).body = splitOn '\n' t from (layoutLines_of_region_eq_nil h).2]
  exact splitOn_ne_nil '\n' t

theorem drops_shortenedBody (t : Text) : Drops (bodyText t) (shortenedBody t) := drops_shorten _ _

theorem shortenedBody_eq_iff (t : Text) : shortenedBody t = bodyText t ↔ shortenedNames t = [] :=
  shorten_eq_iff (bindingsOf t) (bodyText t)

/-- The text that repair lays out anew. -/
def shortenedText (t : Text) : Text :=
  if (layout t).region.isEmpty then shortenedBody t
  else joinWith ['\n'] (layout t).upToRegion ++ '\n' :: shortenedBody t

/-- A text with its body shortened has the lines around the body that it had. -/
theorem splitOn_shortenedText (t : Text) :
    splitOn '\n' (shortenedText t) = (layout t).head ++ (layout t).region ++ splitOn '\n' (shortenedBody t) := by
  unfold shortenedText
  split
  · rename_i h
    have h := List.isEmpty_iff.1 h
    rw [h, show (layout t).head = [] from (layoutLines_of_region_eq_nil h).1]
    rfl
  · rename_i h
    have hne : (layout t).upToRegion ≠ [] := fun hnil => h (List.isEmpty_iff.2 (List.append_eq_nil_iff.1 hnil).2)
    have hlines : ∀ line ∈ (layout t).upToRegion, '\n' ∉ line := fun line hline =>
      newline_not_mem_layout (List.mem_append_left _ hline)
    rw [splitOn_append, splitOn_joinWith hne hlines]
    rfl

/-- **Shortening keeps the layout** around the body. -/
theorem layout_shortenedText (t : Text) :
    (layout (shortenedText t)).head = (layout t).head ∧ (layout (shortenedText t)).region = (layout t).region
      ∧ (layout (shortenedText t)).body = splitOn '\n' (shortenedBody t) := by
  have hlayout : layout (shortenedText t) =
      layoutLines ((layout t).head ++ (layout t).region ++ splitOn '\n' (shortenedBody t)) :=
    congrArg layoutLines (splitOn_shortenedText t)
  rw [hlayout]
  by_cases hbody : (layout t).body = []
  · have hshort : shortenedBody t = [] := by
      have hdrops := drops_shortenedBody t
      rw [bodyText, hbody] at hdrops
      exact List.length_eq_zero_iff.1 (Nat.le_zero.1 hdrops.length_le)
    have hregion : (layout t).region ≠ [] := fun h => body_ne_nil h hbody
    have hlines := layoutLines_lines (splitOn '\n' t)
    rw [show (layoutLines (splitOn '\n' t)).body = [] from hbody, List.append_nil] at hlines
    rw [hshort, show (layout t).head ++ (layout t).region = splitOn '\n' t from hlines,
      show splitOn '\n' [] = [[]] from rfl, layoutLines_append_nil hregion hbody]
    exact ⟨rfl, rfl, rfl⟩
  · have hdrops := (drops_shortenedBody t).splitOn
    rw [splitOn_bodyText hbody] at hdrops
    exact layoutLines_replace_body hdrops

theorem rebuild_congr {l k : Layout} (hhead : l.head = k.head) (hregion : l.region = k.region) (hbody : l.body = k.body)
    (targets : List Text) (terminated : Bool) : rebuild l targets terminated = rebuild k targets terminated := by
  simp only [rebuild, hhead, hregion, hbody]

/-- **The result of repair**: the text itself if it has neither imports to sort nor names to shorten, and else the
    text rebuilt around the kept imports. -/
theorem fixImports_eq (t : Text) :
    fixImports t = if (layout t).region = [] ∧ shortenedNames t = [] then t
      else rebuild (shortenedLayout t) (keptImports t) (t.getLast? == some '\n') := by
  have hstay : ((layout t).region.isEmpty && shortenedBody t == bodyText t) = true ↔
      (layout t).region = [] ∧ shortenedNames t = [] := by
    rw [Bool.and_eq_true, List.isEmpty_iff, beq_iff_eq, shortenedBody_eq_iff]
  obtain ⟨hhead, hregion, hbody⟩ := layout_shortenedText t
  rw [← if_congr hstay rfl (rebuild_congr (k := shortenedLayout t) hhead hregion hbody _ _)]
  rfl

/-! ## Lines -/

theorem newline_not_mem_shortenedLayout (t : Text) :
    ∀ line ∈ (shortenedLayout t).head ++ (shortenedLayout t).region ++ (shortenedLayout t).body, '\n' ∉ line := by
  intro line hline
  rcases List.mem_append.1 hline with hline | hline
  · exact newline_not_mem_layout (List.mem_append_left _ hline)
  · exact newline_not_mem_splitOn hline

theorem mem_of_mem_words {t w : Text} {c : Char} (hw : w ∈ words t) (hc : c ∈ w) : c ∈ t := by
  fun_induction words t generalizing w <;> grind

theorem mem_of_mem_importTarget? {line target : Text} {c : Char} (h : importTarget? line = some target)
    (hc : c ∈ target) : c ∈ line := by
  simp only [importTarget?, Option.bind_eq_bind, Option.bind_eq_some_iff, Option.pure_def, Option.some.injEq] at h
  obtain ⟨rest, hrest, name, hname, rfl⟩ := h
  have hline : c ∈ trim line := by
    rw [dropPrefix?_eq_some.1 hrest, dropSuffix?_eq_some.1 hname]
    simp [mem_of_mem_trim hc]
  exact mem_of_mem_trim hline

theorem newline_not_mem_imports {t target : Text} (h : target ∈ (layout t).imports) : '\n' ∉ target := by
  obtain ⟨found, hfound, rfl⟩ := List.mem_map.1 h
  obtain ⟨line, hline, htarget⟩ := List.mem_filterMap.1 hfound
  intro hmem
  rcases mem_joinWith hmem with hsep | ⟨w, hw, hc⟩
  · exact absurd hsep (by decide)
  · have hin := mem_of_mem_importTarget? htarget (mem_of_mem_words hw hc)
    exact newline_not_mem_layout (List.mem_append_left _ (List.mem_append_right _ hline)) hin

/-- The characters of a name. -/
theorem mem_full {q : Qualified} (h : q.Proper) {c : Char} (hc : c ∈ q.full) : inPackage c = true ∨ inClassName c = true := by
  rcases List.mem_append.1 hc with hc | hc
  · exact .inl (h.package c hc)
  · rcases List.mem_cons.1 hc with rfl | hc
    · exact .inl (by decide)
    · exact .inr (h.name c hc)

theorem not_mem_full {q : Qualified} (h : q.Proper) {c : Char} (hp : inPackage c = false) (hn : inClassName c = false) :
    c ∉ q.full := by
  intro hc
  rcases mem_full h hc with hc | hc
  · rw [hp] at hc
    cases hc
  · rw [hn] at hc
    cases hc

/-- The names of a text are proper. -/
theorem proper_of_mem_qualifiedNames {body : Text} {q : Qualified} (h : q ∈ qualifiedNames body) : q.Proper := by
  obtain ⟨s, -, hq⟩ := List.mem_flatMap.1 h
  split at hq
  · obtain ⟨p, hp, hvalue⟩ := List.mem_filterMap.1 hq
    cases p with
    | plain c => cases hvalue
    | hit m r =>
      cases hvalue
      obtain ⟨before, t', hfind⟩ := exists_find_of_mem_pieces hp
      exact (findQualified_spec hfind).2.2
  · cases hq

theorem newline_not_mem_keptImports {t target : Text} (h : target ∈ keptImports t) : '\n' ∉ target := by
  rcases List.mem_append.1 (List.mem_of_mem_filter h) with h | h
  · exact newline_not_mem_imports h
  · obtain ⟨q, hq, rfl⟩ := List.mem_map.1 h
    exact not_mem_full (proper_of_mem_qualifiedNames (List.mem_of_mem_filter hq)) (by decide) (by decide)

end JavaMend.Java
