import JavaMend.Proofs.Java.Blocks
import JavaMend.Proofs.Java.Repaired

/-!
# `Proofs.Java.Preservation` — which imports a repaired text declares

Repair is meant to lose no import and to invent none. Its scan of the header takes lines by their looks, though, and
stops at the first one it does not know, such as a package clause with a comment behind it; imports from there on are
body, where names are shortened. `survivors` gives the imports of the result for every text, and with them the exact
condition under which imports are preserved.

## Contents
- **The promise.** `ImportsPreserved`.
- **The result.** `survivors`; `declaredImports_fixImports`.
- **The condition.** `importsPreserved_iff`, `not_importsPreserved_commentedPackage`.
- **Plain headers.** `ReadsPlainly`, `PlainHeader`; `mem_survivors_of_plainHeader`,
  `importsPreserved_iff_of_plainHeader`.
-/

namespace JavaMend.Java

open JavaMend Text

/-! ## The promise -/

/-- Repair keeps every import that says something, and every import of the result was there or is that of a name that
    was shortened. -/
def ImportsPreserved (t : Text) : Prop :=
  (∀ target ∈ declaredImports t, isRedundant (ownPackage t) target = false → target ∈ declaredImports (fixImports t))
    ∧ ∀ target ∈ declaredImports (fixImports t),
        target ∈ declaredImports t ∨ ∃ q ∈ shortenedNames t, target = q.full

/-! ## The result -/

/-- The imports that are read in the sections of the repaired text: above the block, in the block, among the lines
    that stood between imports, and in the shortened body. A text with neither imports to sort nor names to shorten
    stays. -/
def survivors (t : Text) : List Text :=
  if (layout t).region = [] ∧ shortenedNames t = [] then declaredImports t
  else
    importsOf .code
      [(shortenedLayout t).cut.1, block (keptImports t), (shortenedLayout t).strays, (shortenedLayout t).cut.2]

/-- **The imports of a repaired text.** -/
theorem declaredImports_fixImports (t : Text) : declaredImports (fixImports t) = survivors t := by
  rw [fixImports_eq, survivors]
  split
  · rfl
  · exact declaredImports_rebuild _ (newline_not_mem_shortenedLayout t) fun _ => newline_not_mem_keptImports

/-! ## The condition -/

/-- **Repair preserves the imports of a text exactly if** the imports that say something are among those read in its
    sections, and those read there were declared or belong to shortened names. -/
theorem importsPreserved_iff (t : Text) :
    ImportsPreserved t ↔
      (∀ target ∈ declaredImports t, isRedundant (ownPackage t) target = false → target ∈ survivors t)
        ∧ ∀ target ∈ survivors t, target ∈ declaredImports t ∨ ∃ q ∈ shortenedNames t, target = q.full := by
  rw [ImportsPreserved, declaredImports_fixImports]

/-- A comment behind the package clause hides the import from the header scan: it is shortened as a name of the
    body. -/
theorem not_importsPreserved_commentedPackage :
    ¬ ImportsPreserved
      (text "package p; // client\n\nimport java.util.List;\n\nclass A \x7b\n   List a;\n\x7d\n") := by
  unfold ImportsPreserved
  decide +kernel

/-! ## Plain headers -/

/-- The lines of an import region are what they look like: an import stands in code as a whole, a comment is closed
    again, and no literal is carried over a blank line. -/
def ReadsPlainly : Mode → List Text → Prop
  | m, []      => m = .code
  | m, l :: ls =>
    if isImport l then m = .code ∧ quiet l = true ∧ ReadsPlainly .code ls
    else if isBlankLine l then m.Settled ∧ ReadsPlainly m ls
    else ReadsPlainly (exit m l) ls

/-- The lines of an import region that are neither blank nor imports. -/
def straysOf (ls : List Text) : List Text := ls.filter fun line => !isBlankLine line && !isImport line

theorem isImport_iff {l : Text} : isImport l = true ↔ ∃ target, target? l = some target := by
  rw [isImport, Option.isSome_iff_exists]
  simp [target?, Option.map_eq_some_iff]

theorem target?_of_not_isImport {l : Text} (h : isImport l = false) : target? l = none := by
  rw [isImport, Option.isSome_eq_false_iff, Option.isNone_iff_eq_none] at h
  rw [target?, h, Option.map_none]

/-- A region that reads plainly leaves code, and so do its strays; it declares its import lines and what its strays
    do. -/
theorem readsPlainly_spec {m : Mode} {ls : List Text} (h : ReadsPlainly m ls) :
    exits m ls = .code ∧ exits m (straysOf ls) = .code
      ∧ ∀ target, target ∈ importsFrom m ls ↔ target ∈ ls.filterMap target? ∨ target ∈ importsFrom m (straysOf ls) := by
  induction ls generalizing m with
  | nil => exact ⟨h, h, fun target => by simp [straysOf]⟩
  | cons l ls ih =>
    unfold ReadsPlainly at h
    split at h
    · rename_i himport
      obtain ⟨rfl, hquiet, hrest⟩ := h
      obtain ⟨hexits, hstrays, hmem⟩ := ih hrest
      obtain ⟨target, htarget⟩ := isImport_iff.1 himport
      have hskip : straysOf (l :: ls) = straysOf ls := by simp [straysOf, himport]
      rw [exits_cons, exit_of_quiet hquiet, hskip]
      refine ⟨hexits, hstrays, fun u => ?_⟩
      rw [importsFrom_cons, showFrom_of_quiet hquiet, exit_of_quiet hquiet, List.filterMap_cons_some htarget, htarget,
        List.mem_append, List.mem_cons, hmem, or_assoc]
      simp
    · rename_i himport
      have hnone := target?_of_not_isImport (Bool.eq_false_iff.2 himport)
      rw [List.filterMap_cons_none hnone]
      split at h
      · rename_i hblank
        obtain ⟨hexits, hstrays, hmem⟩ := ih h.2
        have hskip : straysOf (l :: ls) = straysOf ls := by simp [straysOf, hblank]
        have hexit : exit m l = m := (exit_of_blank h.1.opensLine hblank).trans h.1
        rw [exits_cons, hexit, hskip]
        refine ⟨hexits, hstrays, fun u => ?_⟩
        rw [importsFrom_cons, target?_showFrom_blank hblank, hexit]
        exact hmem u
      · rename_i hblank
        obtain ⟨hexits, hstrays, hmem⟩ := ih h
        have hkeep : straysOf (l :: ls) = l :: straysOf ls := by simp [straysOf, himport, hblank]
        rw [exits_cons, hkeep, exits_cons]
        refine ⟨hexits, hstrays, fun u => ?_⟩
        rw [importsFrom_cons, importsFrom_cons, List.mem_append, List.mem_append, hmem, or_left_comm]

/-- Import lines that read plainly have quiet targets. -/
theorem quiet_of_readsPlainly {m : Mode} {ls : List Text} (h : ReadsPlainly m ls) :
    ∀ target ∈ ls.filterMap target?, quiet target = true := by
  induction ls generalizing m with
  | nil => simp
  | cons l ls ih =>
    unfold ReadsPlainly at h
    split at h
    · rename_i himport
      obtain ⟨target, htarget⟩ := isImport_iff.1 himport
      rw [List.filterMap_cons_some htarget]
      exact List.forall_mem_cons.2 ⟨(target?_spec htarget).2 h.2.1, ih h.2.2⟩
    · rename_i himport
      rw [List.filterMap_cons_none (target?_of_not_isImport (Bool.eq_false_iff.2 himport))]
      split at h
      · exact ih h.2
      · exact ih h

/-- **The header of a text reads plainly**: nothing is left open above the imports, the lines of the region are what
    they look like, and the package clause stands in code. -/
structure PlainHeader (t : Text) : Prop where
  above : exits .code (shortenedLayout t).cut.1 = .code
  region : ReadsPlainly .code (layout t).region
  package : (layout t).package = ownPackage t

theorem imports_eq (t : Text) : (layout t).imports = (layout t).region.filterMap target? := by
  rw [Layout.imports, List.map_filterMap]
  rfl

/-- A qualified name is one quiet word. -/
theorem plain_full {q : Qualified} (h : q.Proper) : Spaced q.full ∧ quiet q.full = true := by
  constructor
  · refine spaced_of_forall_not_blank (by simp [Qualified.full]) fun c hc => ?_
    rcases mem_full h hc with hc | hc
    · exact Drops.not_isBlank_of_inPackage hc
    · exact not_isBlank_of_inClassName hc
  · refine quiet_of_forall fun c hc => ⟨?_, ?_, ?_⟩
    · rintro rfl
      exact not_mem_full h (by decide) (by decide) hc
    · rintro rfl
      exact not_mem_full h (by decide) (by decide) hc
    · rintro rfl
      exact not_mem_full h (by decide) (by decide) hc

/-- The kept imports of a plain header can be written as lines that declare them. -/
theorem keptImports_plain {t : Text} (h : PlainHeader t) :
    ∀ target ∈ keptImports t, Spaced target ∧ quiet target = true := by
  intro target htarget
  rcases List.mem_append.1 (List.mem_of_mem_filter htarget) with htarget | htarget
  · rw [imports_eq] at htarget
    obtain ⟨line, -, hline⟩ := List.mem_filterMap.1 htarget
    exact ⟨(target?_spec hline).1, quiet_of_readsPlainly h.region target htarget⟩
  · obtain ⟨q, hq, rfl⟩ := List.mem_map.1 htarget
    exact plain_full (proper_of_mem_qualifiedNames (List.mem_of_mem_filter hq))

/-- Without a region the sections around the block are the shortened body. -/
theorem importsFrom_cut {t : Text} (habove : exits .code (shortenedLayout t).cut.1 = .code)
    (hregion : (layout t).region = []) :
    importsFrom .code (splitOn '\n' (shortenedBody t)) =
      importsFrom .code (shortenedLayout t).cut.1 ++ importsFrom .code (shortenedLayout t).cut.2 := by
  have hcut : (shortenedLayout t).cut = splitAtPackage (splitOn '\n' (shortenedBody t)) := by
    rw [Layout.cut, shortenedLayout_region, hregion, shortenedLayout_body]
    rfl
  rw [hcut] at habove ⊢
  conv => lhs; rw [← splitAtPackage_lines (splitOn '\n' (shortenedBody t))]
  rw [importsFrom_append, habove]

/-- With a region the body stands below the block as a whole. -/
theorem cut_of_region {t : Text} (h : (layout t).region ≠ []) :
    (shortenedLayout t).cut = ((layout t).head, splitOn '\n' (shortenedBody t)) := by
  rw [Layout.cut, shortenedLayout_region, if_neg fun hempty => h (List.isEmpty_iff.1 hempty), shortenedLayout_head,
    shortenedLayout_body]

/-- **What survives under a plain header**: the imports above the block, the kept ones, those that stray lines of the
    region declare, and those of the shortened body. -/
theorem mem_survivors_of_plainHeader {t : Text} (h : PlainHeader t) {target : Text} :
    target ∈ survivors t ↔
      target ∈ importsFrom .code (shortenedLayout t).cut.1 ∨ target ∈ keptImports t
        ∨ target ∈ importsFrom .code (straysOf (layout t).region)
        ∨ target ∈ importsFrom .code (shortenedLayout t).cut.2 := by
  have hplain : ∀ target ∈ sortTargets (keptImports t), Spaced target ∧ quiet target = true := fun target htarget =>
    keptImports_plain h target (mem_sortTargets.1 htarget)
  obtain ⟨hblock, hexits⟩ := importsFrom_importLines hplain
  obtain ⟨-, hstrays, -⟩ := readsPlainly_spec h.region
  unfold survivors
  split
  · rename_i hstay
    have hkept : keptImports t = [] := by simp [keptImports, imports_eq, hstay.1, hstay.2]
    have hlines : splitOn '\n' (shortenedBody t) = splitOn '\n' t := by
      rw [(shortenedBody_eq_iff t).2 hstay.2, splitOn_bodyText (body_ne_nil hstay.1)]
      exact (layoutLines_of_region_eq_nil hstay.1).2
    rw [declaredImports_eq, ← hlines, importsFrom_cut h.above hstay.1, hkept, hstay.1]
    simp [straysOf]
  · have hcode : exit .code [] = .code := rfl
    have hsection : (shortenedLayout t).strays = straysOf (layout t).region := rfl
    simp only [importsOf, block_eq, h.above, hcode, hblock, hexits, hsection, hstrays, List.mem_append, List.append_nil,
      mem_sortTargets]

/-- What a text with a plain header declares. -/
theorem mem_declaredImports_of_plainHeader {t : Text} (h : PlainHeader t) {target : Text} :
    target ∈ declaredImports t ↔
      target ∈ importsFrom .code (layout t).head
        ∨ (target ∈ (layout t).imports ∨ target ∈ importsFrom .code (straysOf (layout t).region))
        ∨ target ∈ importsFrom .code (layout t).body := by
  have hhead : exits .code (layout t).head = .code := by
    by_cases hregion : (layout t).region = []
    · rw [show (layout t).head = [] from (layoutLines_of_region_eq_nil hregion).1]
      rfl
    · have habove := h.above
      rwa [cut_of_region hregion] at habove
  obtain ⟨hexits, -, hmem⟩ := readsPlainly_spec h.region
  rw [declaredImports_eq, ← layoutLines_lines (splitOn '\n' t), importsFrom_append, importsFrom_append, exits_append]
  change target ∈ importsFrom .code (layout t).head ++ importsFrom (exits .code (layout t).head) (layout t).region
    ++ importsFrom (exits (exits .code (layout t).head) (layout t).region) (layout t).body ↔ _
  rw [hhead, hexits, List.mem_append, List.mem_append, hmem, imports_eq, or_assoc]

/-- **Under a plain header only imports below the region are at stake**: imports are preserved exactly if those that the
    body declares survive and those that the shortened body declares were there. -/
theorem importsPreserved_iff_of_plainHeader {t : Text} (h : PlainHeader t) :
    ImportsPreserved t ↔
      (∀ target ∈ importsFrom .code (layout t).body, isRedundant (ownPackage t) target = false → target ∈ survivors t)
        ∧ ∀ target ∈ importsFrom .code (splitOn '\n' (shortenedBody t)),
            target ∈ declaredImports t ∨ ∃ q ∈ shortenedNames t, target = q.full := by
  rw [importsPreserved_iff]
  constructor
  · rintro ⟨hkeep, hadd⟩
    refine ⟨fun target htarget => hkeep target ((mem_declaredImports_of_plainHeader h).2 (.inr (.inr htarget))),
      fun target htarget => hadd target ((mem_survivors_of_plainHeader h).2 ?_)⟩
    by_cases hregion : (layout t).region = []
    · rw [importsFrom_cut h.above hregion, List.mem_append] at htarget
      exact htarget.imp_right fun hbelow => .inr (.inr hbelow)
    · rw [cut_of_region hregion]
      exact .inr (.inr (.inr htarget))
  · rintro ⟨hkeep, hadd⟩
    constructor
    · intro target htarget hsays
      rcases (mem_declaredImports_of_plainHeader h).1 htarget with hhead | (himport | hstray) | hbody
      · by_cases hregion : (layout t).region = []
        · rw [show (layout t).head = [] from (layoutLines_of_region_eq_nil hregion).1] at hhead
          cases hhead
        · refine (mem_survivors_of_plainHeader h).2 (.inl ?_)
          rwa [cut_of_region hregion]
      · refine (mem_survivors_of_plainHeader h).2 (.inr (.inl ?_))
        exact List.mem_filter.2 ⟨List.mem_append_left _ himport, by rw [h.package, hsays]; rfl⟩
      · exact (mem_survivors_of_plainHeader h).2 (.inr (.inr (.inl hstray)))
      · exact hkeep target hbody hsays
    · intro target htarget
      -- The sections around the block hold what the shortened body declares and, with a region, what the head does.
      have hsection : target ∈ importsFrom .code (shortenedLayout t).cut.1
          ∨ target ∈ importsFrom .code (shortenedLayout t).cut.2 →
          target ∈ declaredImports t ∨ ∃ q ∈ shortenedNames t, target = q.full := by
        intro hmem
        by_cases hregion : (layout t).region = []
        · refine hadd target ?_
          rwa [importsFrom_cut h.above hregion, List.mem_append]
        · rw [cut_of_region hregion] at hmem
          rcases hmem with hhead | hbody
          · exact .inl ((mem_declaredImports_of_plainHeader h).2 (.inl hhead))
          · exact hadd target hbody
      rcases (mem_survivors_of_plainHeader h).1 htarget with habove | hkept | hstray | hbelow
      · exact hsection (.inl habove)
      · rcases List.mem_append.1 (List.mem_of_mem_filter hkept) with himport | hname
        · exact .inl ((mem_declaredImports_of_plainHeader h).2 (.inr (.inl (.inl himport))))
        · obtain ⟨q, hq, rfl⟩ := List.mem_map.1 hname
          exact .inr ⟨q, hq, rfl⟩
      · exact .inl ((mem_declaredImports_of_plainHeader h).2 (.inr (.inl (.inr hstray))))
      · exact hsection (.inr hbelow)

end JavaMend.Java
