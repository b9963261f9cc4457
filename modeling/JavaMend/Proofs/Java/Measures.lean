import JavaMend.Proofs.Java.Blocks
import JavaMend.Proofs.Java.Marks
import JavaMend.Proofs.Java.Repaired

/-!
# `Proofs.Java.Measures` — what repairing imports does not add

Repair keeps the lines of a text but for blank ones, writes every import at most once, and shortens names in the body.
So a measure of texts does not grow if it goes line by line, counts an import at most as its target, and shortens no
less than the imports for it cost.

## Contents
- **Measures.** `ImportMeasure`.
- **Import lines.** `target_le`, `total_sortTargets_le`, `total_region_le`.
- **Rebuilding.** `rebuild_le`, `total_layout`.
- **Repair.** `fixImports_le`, `ensureImport_le`.
-/

namespace JavaMend.Java

open JavaMend Text

/-! ## Measures -/

/-- **A measure that repair does not increase.** -/
structure ImportMeasure (μ : Text → Nat) : Prop where
  nil : μ [] = 0
  newline : ∀ s t, μ (s ++ '\n' :: t) = μ s + μ t
  trim_le : ∀ t, μ (trim t) ≤ μ t
  words_le : ∀ t, μ (joinWith [' '] (words t)) ≤ μ t
  importLine_eq : ∀ target, μ (importLine target) = μ target
  shorten_le : ∀ b body, μ (shorten b body).1 + total μ (shorten b body).2 ≤ μ body

namespace ImportMeasure

variable {μ : Text → Nat} (hμ : ImportMeasure μ)

include hμ

theorem joinWith_newline (ls : List Text) : μ (joinWith ['\n'] ls) = total μ ls :=
  total_joinWith hμ.nil hμ.newline ls

/-- **A text measures what its lines do.** -/
theorem total_splitOn (t : Text) : total μ (splitOn '\n' t) = μ t := by
  rw [← hμ.joinWith_newline, joinWith_splitOn]

/-! ## Import lines -/

/-- An import line measures what its target does at least. -/
theorem target_le {line target : Text} (h : importTarget? line = some target) :
    μ (joinWith [' '] (words target)) ≤ μ line := by
  simp only [importTarget?, Option.bind_eq_bind, Option.bind_eq_some_iff, Option.pure_def, Option.some.injEq] at h
  obtain ⟨rest, hrest, name, hname, rfl⟩ := h
  have hline : trim line = importLine name := by
    unfold importLine
    rw [dropPrefix?_eq_some.1 hrest, dropSuffix?_eq_some.1 hname, List.append_assoc]
  calc μ (joinWith [' '] (words (trim name)))
      ≤ μ (trim name) := hμ.words_le _
    _ ≤ μ name := hμ.trim_le name
    _ = μ (trim line) := by rw [hline, hμ.importLine_eq]
    _ ≤ μ line := hμ.trim_le line

theorem total_importLines (targets : List Text) : total μ (targets.map importLine) = total μ targets := by
  induction targets with
  | nil => rfl
  | cons target targets ih => rw [List.map_cons, total_cons, total_cons, hμ.importLine_eq, ih]

omit hμ in
theorem total_insertTarget_le (μ : Text → Nat) (target : Text) (ts : List Text) :
    total μ (insertTarget target ts) ≤ μ target + total μ ts := by
  induction ts with
  | nil => exact Nat.le_refl _
  | cons t ts ih =>
    unfold insertTarget
    split
    · exact Nat.le_add_left _ _
    · split
      · exact Nat.le_refl _
      · rw [total_cons, total_cons]
        omega

omit hμ in
theorem total_sortTargets_le (μ : Text → Nat) (ts : List Text) : total μ (sortTargets ts) ≤ total μ ts := by
  induction ts with
  | nil => exact Nat.le_refl 0
  | cons t ts ih =>
    have h := total_insertTarget_le μ t (sortTargets ts)
    rw [total_cons, show sortTargets (t :: ts) = insertTarget t (sortTargets ts) from rfl]
    omega

/-- The lines of a region measure what its imports and its other lines do at least. -/
theorem total_region_le (ls : List Text) :
    total μ ((ls.filterMap importTarget?).map fun target => joinWith [' '] (words target))
      + total μ (ls.filter fun line => !isBlankLine line && !isImport line) ≤ total μ ls := by
  induction ls with
  | nil => exact Nat.le_refl 0
  | cons l ls ih =>
    cases htarget : importTarget? l with
    | none =>
      rw [List.filterMap_cons_none htarget]
      have hfilter : total μ ((l :: ls).filter fun line => !isBlankLine line && !isImport line) ≤
          μ l + total μ (ls.filter fun line => !isBlankLine line && !isImport line) := by
        rw [List.filter_cons]
        split
        · exact Nat.le_refl _
        · exact Nat.le_add_left _ _
      rw [total_cons]
      omega
    | some target =>
      have himport : isImport l = true := by rw [isImport, htarget]; rfl
      have hline := hμ.target_le htarget
      rw [List.filterMap_cons_some htarget, List.map_cons, total_cons, total_cons,
        List.filter_cons_of_neg (by simp [himport])]
      omega

/-! ## Rebuilding -/

omit hμ in
theorem total_cut_le (μ : Text → Nat) (l : Layout) :
    total μ l.cut.1 + total μ l.cut.2 ≤ total μ l.head + total μ l.body := by
  unfold Layout.cut
  split
  · rw [← total_append, splitAtPackage_lines]
    exact Nat.le_add_left _ _
  · exact Nat.le_refl _

omit hμ in
theorem total_rest_le (μ : Text → Nat) (l : Layout) (terminated : Bool) :
    total μ (l.rest terminated) ≤ total μ l.cut.2 := by
  refine total_le_of_sublist ((List.dropWhile_sublist _).trans ?_)
  split
  · exact List.dropLast_sublist _
  · exact List.Sublist.refl _

omit hμ in
theorem total_dropBlankEnd_le (μ : Text → Nat) (ls : List Text) : total μ (dropBlankEnd ls) ≤ total μ ls := by
  obtain ⟨bs, hbs, -⟩ := exists_blanks_dropBlankEnd ls
  conv => rhs; rw [hbs]
  rw [total_append]
  exact Nat.le_add_right _ _

/-- Sections measure what their lines do. -/
theorem sections_eq (ss : List (List Text)) :
    μ (joinWith (text "\n\n") (ss.map (joinWith ['\n']))) = total μ ss.flatten := by
  have hsep (s t : Text) : μ (s ++ (text "\n\n" ++ t)) = μ s + μ t := by
    have hempty := hμ.newline [] t
    rw [hμ.nil, Nat.zero_add] at hempty
    exact (hμ.newline s ('\n' :: t)).trans (congrArg (μ s + ·) hempty)
  rw [total_joinWith hμ.nil hsep]
  induction ss with
  | nil => rfl
  | cons s ss ih => rw [List.map_cons, total_cons, List.flatten_cons, total_append, hμ.joinWith_newline, ih]

omit hμ in
theorem total_flatten_filter (μ : Text → Nat) (ss : List (List Text)) :
    total μ (ss.filter fun s => !s.isEmpty).flatten = total μ ss.flatten := by
  induction ss with
  | nil => rfl
  | cons s ss ih =>
    cases s with
    | nil => simpa using ih
    | cons l ls => simp [ih]

/-- **A rebuilt text** measures at most what the lines of the layout and the targets do. -/
theorem rebuild_le (l : Layout) (targets : List Text) (terminated : Bool) :
    μ (rebuild l targets terminated) ≤ total μ l.head + total μ targets + total μ l.strays + total μ l.body := by
  have hend (s : Text) : μ (s ++ if terminated then ['\n'] else []) = μ s := by
    cases terminated with
    | false => simp
    | true => exact (hμ.newline s []).trans (by rw [hμ.nil, Nat.add_zero])
  have hcut := total_cut_le μ l
  have hhead := total_dropBlankEnd_le μ l.cut.1
  have hrest := total_rest_le μ l terminated
  have hblock : total μ (block targets) ≤ total μ targets := by
    rw [block_eq, hμ.total_importLines]
    exact total_sortTargets_le μ targets
  rw [rebuild_eq, hend, hμ.sections_eq, total_flatten_filter]
  simp only [Layout.sections, List.flatten_cons, List.flatten_nil, total_append, total_nil]
  omega

/-- A text measures what the parts of its layout do. -/
theorem total_layout (t : Text) :
    total μ (layout t).head + total μ (layout t).region + total μ (layout t).body = μ t := by
  rw [← total_append, ← total_append, layout, layoutLines_lines, hμ.total_splitOn]

theorem total_imports_le (l : Layout) : total μ l.imports + total μ l.strays ≤ total μ l.region :=
  hμ.total_region_le l.region

/-! ## Repair -/

/-- **Repairing imports adds nothing.** -/
theorem fixImports_le (t : Text) : μ (fixImports t) ≤ μ t := by
  rw [fixImports_eq]
  split
  · exact Nat.le_refl _
  · have hrebuild := hμ.rebuild_le (shortenedLayout t) (keptImports t) (t.getLast? == some '\n')
    have himports := hμ.total_imports_le (layout t)
    -- The imports that are added were paid for in the body.
    have hbody : μ (shortenedBody t) + total μ ((shortenedNames t).map Qualified.full) ≤ total μ (layout t).body := by
      rw [← hμ.joinWith_newline (layout t).body]
      exact hμ.shorten_le (bindingsOf t) (bodyText t)
    have hkept : total μ (keptImports t) ≤
        total μ (layout t).imports + total μ ((shortenedNames t).map Qualified.full) := by
      rw [← total_append]
      exact total_le_of_sublist List.filter_sublist
    have hlayout := hμ.total_layout t
    have hstrays : total μ (shortenedLayout t).strays = total μ (layout t).strays := rfl
    rw [shortenedLayout_head, shortenedLayout_body, hμ.total_splitOn, hstrays] at hrebuild
    omega

/-- Adding an import that measures nothing adds nothing. -/
theorem ensureImport_le {target : Text} (h : μ target = 0) (t : Text) : μ (ensureImport t target) ≤ μ t := by
  unfold ensureImport
  simp only
  split
  · exact Nat.le_refl _
  · have hrebuild := hμ.rebuild_le (layout t) (target :: (layout t).imports) (t.getLast? == some '\n')
    have himports := hμ.total_imports_le (layout t)
    have hlayout := hμ.total_layout t
    rw [total_cons, h] at hrebuild
    omega

end ImportMeasure
end JavaMend.Java
