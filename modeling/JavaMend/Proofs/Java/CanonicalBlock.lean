import JavaMend.Proofs.ByteOrder
import JavaMend.Proofs.Java.HeaderScans

/-!
# `Proofs.Java.CanonicalBlock` — the import block of a repaired text

The imports of a repaired text are the kept ones, each once and in order, in lines that follow one another; an empty
line stands between them and whatever is above or below.

## Contents
- **Order.** `Ahead`; `pairwise_sortTargets`.
- **Canonical blocks.** `Layout.Canonical`; `canonical_rebuild`.
- **Repaired texts.** `mem_keptImports`, `delimited_shortenedLayout`; `canonical_fixImports`.
-/

namespace JavaMend.Java

open JavaMend Text

/-! ## Order -/

/-- **The order of imports**: static ones behind the others, and within a kind by the bytes of the targets. -/
def Ahead (a b : Text) : Prop :=
  (isStatic a = false ∧ isStatic b = true) ∨ (isStatic a = isStatic b ∧ utf8 a < utf8 b)

theorem ahead_iff {a b : Text} : targetLt a b = true ↔ Ahead a b := by
  unfold targetLt Ahead
  rw [← before_iff_utf8_lt]
  cases isStatic a <;> cases isStatic b <;> simp

theorem Ahead.trans {a b c : Text} (hab : Ahead a b) (hbc : Ahead b c) : Ahead a c := by
  rcases hab with ⟨ha, hb⟩ | ⟨hab, hlt⟩
  · rcases hbc with ⟨hb', -⟩ | ⟨hbc, -⟩
    · rw [hb] at hb'
      cases hb'
    · exact .inl ⟨ha, hbc ▸ hb⟩
  · rcases hbc with ⟨hb, hc⟩ | ⟨hbc, hlt'⟩
    · exact .inl ⟨hab.trans hb, hc⟩
    · exact .inr ⟨hab.trans hbc, List.lt_trans hlt hlt'⟩

theorem ahead_of_not {a b : Text} (hne : a ≠ b) (h : ¬ Ahead a b) : Ahead b a := by
  rw [← ahead_iff] at h ⊢
  unfold targetLt at h ⊢
  cases ha : isStatic a <;> cases hb : isStatic b <;> simp [ha, hb] at h ⊢
  · exact before_total hne h
  · exact before_total hne h

/-- A target is put in its place. -/
theorem pairwise_insertTarget (target : Text) {ts : List Text} (h : ts.Pairwise Ahead) :
    (insertTarget target ts).Pairwise Ahead := by
  induction ts with
  | nil => exact List.pairwise_singleton _ _
  | cons u us ih =>
    obtain ⟨hu, hus⟩ := List.pairwise_cons.1 h
    unfold insertTarget
    split
    · exact h
    · rename_i hne
      split
      · rename_i hlt
        have hahead : Ahead target u := ahead_iff.1 hlt
        refine List.pairwise_cons.2 ⟨fun v hv => ?_, h⟩
        rcases List.mem_cons.1 hv with rfl | hv
        · exact hahead
        · exact hahead.trans (hu v hv)
      · rename_i hlt
        have hback : Ahead u target := ahead_of_not hne fun hahead => hlt (ahead_iff.2 hahead)
        refine List.pairwise_cons.2 ⟨fun v hv => ?_, ih hus⟩
        rcases mem_insertTarget.1 hv with rfl | hv
        · exact hback
        · exact hu v hv

theorem pairwise_sortTargets (ts : List Text) : (sortTargets ts).Pairwise Ahead := by
  induction ts with
  | nil => exact .nil
  | cons t ts ih => exact pairwise_insertTarget t ih

/-! ## Canonical blocks -/

/-- **A canonical import block**: import lines in a row and in order, each once, with one empty line between them and
    whatever stands above or below. -/
structure Layout.Canonical (l : Layout) : Prop where
  block : l.region = l.imports.map importLine
  sorted : l.imports.Pairwise Ahead
  above : l.region ≠ [] → l.head = [] ∨ ∃ lines line, l.head = lines ++ [line, []] ∧ isBlankLine line = false
  below : l.region ≠ [] →
    l.body = [] ∨ l.body = [[]] ∨ ∃ line lines, l.body = [] :: line :: lines ∧ isBlankLine line = false

theorem above_dropBlankEnd (ls : List Text) :
    above (dropBlankEnd ls) = [] ∨ ∃ lines line, above (dropBlankEnd ls) = lines ++ [line, []] ∧ isBlankLine line = false := by
  cases hend : ls.reverse.dropWhile isBlankLine with
  | nil => exact .inl (by simp [above, dropBlankEnd, hend])
  | cons line lines =>
    refine .inr ⟨lines.reverse, line, ?_, by simpa using not_of_dropWhile_cons hend⟩
    simp [above, dropBlankEnd, hend]

theorem below_append {s : List Text} (hs : ∀ line ∈ s.head?, isBlankLine line = false) (ls : List Text) :
    below s ++ ls = ls ∨ ∃ line lines, below s ++ ls = [] :: line :: lines ∧ isBlankLine line = false := by
  cases s with
  | nil => exact .inl rfl
  | cons line lines => exact .inr ⟨line, lines ++ ls, rfl, hs line rfl⟩

theorem isBlankLine_head_rest (l : Layout) (terminated : Bool) :
    ∀ line ∈ (l.rest terminated).head?, isBlankLine line = false := by
  intro line hline
  unfold Layout.rest at hline
  generalize (if terminated && l.cut.2.getLast? == some [] then l.cut.2.dropLast else l.cut.2) = ls at hline
  obtain ⟨lines, hlines⟩ := List.head?_eq_some_iff.1 hline
  simpa using not_of_dropWhile_cons hlines

theorem isBlankLine_head_strays (l : Layout) : ∀ line ∈ l.strays.head?, isBlankLine line = false := by
  intro line hline
  have h := (List.mem_filter.1 (List.mem_of_mem_head? hline)).2
  simp only [Bool.and_eq_true, Bool.not_eq_true'] at h
  exact h.1

/-- **A rebuilt text has a canonical block.** -/
theorem canonical_rebuild {l : Layout} {targets : List Text} (terminated : Bool) (hl : l.Delimited)
    (hregion : l.region ≠ []) (htargets : ∀ target ∈ targets, Spaced target)
    (hlines : ∀ line ∈ l.head ++ l.region ++ l.body, '\n' ∉ line) (hnewline : ∀ target ∈ targets, '\n' ∉ target) :
    (layout (rebuild l targets terminated)).Canonical
      ∧ (layout (rebuild l targets terminated)).imports = sortTargets targets := by
  by_cases hne : targets = []
  · subst hne
    have hnone : (layout (rebuild l [] terminated)).region = [] := region_rebuild_nil hl hregion hlines
    have himports : (layout (rebuild l [] terminated)).imports = [] := by rw [imports_eq, hnone, List.filterMap_nil]
    refine ⟨⟨by rw [hnone, himports, List.map_nil], by rw [himports]; exact .nil, ?_, ?_⟩, himports⟩
    · exact fun h => absurd hnone h
    · exact fun h => absurd hnone h
  · have hlayout := @layout_rebuild l targets terminated hl hregion hne htargets hlines hnewline
    have himports : (layout (rebuild l targets terminated)).imports = sortTargets targets := by
      rw [imports_eq, hlayout]
      exact filterMap_target?_importLines fun target htarget => htargets target (mem_sortTargets.1 htarget)
    refine ⟨⟨?_, ?_, fun _ => ?_, fun _ => ?_⟩, himports⟩
    · rw [himports, hlayout]
      rfl
    · rw [himports]
      exact pairwise_sortTargets targets
    · rw [hlayout]
      exact above_dropBlankEnd l.head
    · rw [hlayout]
      simp only [List.append_assoc]
      rcases below_append (isBlankLine_head_strays l) (below (l.rest terminated) ++ if terminated then [[]] else [])
        with h | h
      · rw [h]
        rcases below_append (isBlankLine_head_rest l terminated) (if terminated then [[]] else []) with h | h
        · rw [h]
          cases terminated with
          | false => exact .inl rfl
          | true => exact .inr (.inl rfl)
        · exact .inr (.inr h)
      · exact .inr (.inr h)

/-! ## Repaired texts -/

theorem spaced_keptImports {t target : Text} (h : target ∈ keptImports t) : Spaced target := by
  rcases List.mem_append.1 (List.mem_of_mem_filter h) with h | h
  · obtain ⟨found, -, rfl⟩ := List.mem_map.1 h
    exact spaced_joinWith_words found
  · obtain ⟨q, hq, rfl⟩ := List.mem_map.1 h
    exact (plain_full (proper_of_mem_qualifiedNames (List.mem_of_mem_filter hq))).1

theorem mem_keptImports {t target : Text} :
    target ∈ keptImports t ↔ (target ∈ (layout t).imports ∨ ∃ q ∈ shortenedNames t, q.full = target)
      ∧ isRedundant (layout t).package target = false := by
  rw [keptImports, List.mem_filter, List.mem_append, List.mem_map, Bool.not_eq_true']

theorem delimited_shortenedLayout {t : Text} (h : (layout t).region ≠ []) : (shortenedLayout t).Delimited := by
  obtain ⟨hhead, hregion, hbody⟩ := layout_shortenedText t
  have hlayout : (layout (shortenedText t)).Delimited := delimited_layoutLines (hregion ▸ h)
  obtain ⟨hopens, hplain, hnone⟩ := hlayout
  rw [hhead] at hplain
  rw [hhead, hregion] at hopens
  rw [hbody] at hnone
  exact ⟨hopens, hplain, hnone⟩

/-- Shortening brings up no package clause. -/
theorem headerShows_package_nil {ls ks : List Text} (h : List.Forall₂ Drops ls ks)
    (hnone : headerShows packageClause? ls = []) : headerShows packageClause? ks = [] := by
  have hlines := forall₂_takeWhile (p := isHeaderLine) (fun _ _ hline => hline.isHeaderLine) h
  unfold headerShows at hnone ⊢
  generalize ls.takeWhile isHeaderLine = as at hlines hnone
  generalize ks.takeWhile isHeaderLine = bs at hlines
  induction hlines with
  | nil => rfl
  | cons hline _ ih =>
    rw [List.filterMap_eq_nil_iff, List.forall_mem_cons] at hnone
    have hshort := hline.packageClause?
    rw [hnone.1, Option.isSome_none, Option.isSome_eq_false_iff, Option.isNone_iff_eq_none] at hshort
    rw [List.filterMap_cons_none hshort, ih (List.filterMap_eq_nil_iff.2 hnone.2)]

/-- The shortened body shows no package clause if the body shows none. -/
theorem headerShows_shortenedBody {t : Text} (hnone : headerShows packageClause? (layout t).body = []) :
    headerShows packageClause? (shortenedLayout t).body = [] := by
  have hdrops := (drops_shortenedBody t).splitOn
  by_cases hbody : (layout t).body = []
  · rw [bodyText, hbody] at hdrops
    exact headerShows_package_nil hdrops rfl
  · rw [splitOn_bodyText hbody] at hdrops
    exact headerShows_package_nil hdrops hnone

/-- **A text with imports is repaired around one canonical block** of the imports it had and of those that shortening
    needs, without the redundant ones. The package is the one it was if no package clause stands below the imports. -/
theorem canonical_fixImports {t : Text} (h : (layout t).region ≠ []) :
    (layout (fixImports t)).Canonical
      ∧ (∀ target, target ∈ (layout (fixImports t)).imports ↔
          (target ∈ (layout t).imports ∨ ∃ q ∈ shortenedNames t, q.full = target)
            ∧ isRedundant (layout t).package target = false)
      ∧ (headerShows packageClause? (layout t).body = [] →
          (layout (fixImports t)).package = (layout t).package) := by
  have hresult : fixImports t = rebuild (shortenedLayout t) (keptImports t) (t.getLast? == some '\n') := by
    rw [fixImports_eq, if_neg fun hnone => h hnone.1]
  have hdelimited := delimited_shortenedLayout h
  have hspaced : ∀ target ∈ keptImports t, Spaced target := fun _ => spaced_keptImports
  have hlines := newline_not_mem_shortenedLayout t
  have hnewline : ∀ target ∈ keptImports t, '\n' ∉ target := fun _ => newline_not_mem_keptImports
  obtain ⟨hcanonical, himports⟩ := canonical_rebuild (t.getLast? == some '\n') hdelimited h hspaced hlines hnewline
  rw [hresult]
  refine ⟨hcanonical, fun target => ?_, fun hnone => ?_⟩
  · rw [himports, mem_sortTargets, mem_keptImports]
  · have hopens := (delimited_layoutLines h).opens
    rw [package_rebuild hdelimited h hspaced hlines hnewline, headerShows_append hdelimited.opens,
      headerShows_shortenedBody hnone, layout, layoutLines_package, ← layoutLines_lines (splitOn '\n' t),
      headerShows_append hopens]
    rw [show (layoutLines (splitOn '\n' t)).body = (layout t).body from rfl, hnone]
    rfl

/-- A static import stays behind the others, the one of `java.lang` goes, and the name in the body is imported. -/
theorem canonical_fixImports_mixed :
    let t := text "package p;\nimport static q.C.m;\n// b\nimport java.lang.Long;\njava.util.List a;\n"
    (layout t).region ≠ [] ∧ (layout (fixImports t)).Canonical
      ∧ text "java.util.List" ∈ (layout (fixImports t)).imports := by
  have h : (layout (text "package p;\nimport static q.C.m;\n// b\nimport java.lang.Long;\njava.util.List a;\n")).region ≠ [] := by
    decide +kernel
  obtain ⟨hcanonical, himports, -⟩ := canonical_fixImports h
  refine ⟨h, hcanonical, (himports _).2 ⟨.inr ⟨⟨text "java.util", text "List", false⟩, ?_, rfl⟩, ?_⟩⟩
  · decide +kernel
  · decide +kernel

end JavaMend.Java
