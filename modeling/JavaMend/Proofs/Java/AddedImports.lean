import Mathlib.Data.List.Nodup
import JavaMend.Proofs.Java.FixedLines
import JavaMend.Proofs.Java.KeptLines

/-!
# `Proofs.Java.AddedImports` — adding one import

An import is added unless the scan of the header finds it or takes it for redundant. Whether it is there is decided by
that scan, and where it goes by another one that looks for the first package clause anywhere. `importsOnce_iff` says for
every text when the two agree with what the code of the text declares, and `importsOnce_iff_of_plain` what is left of
that where the header reads as it looks.

## Contents
- **The promise.** `Importable`, `ImportsOnce`; `importable_of_dotted`.
- **Scans.** `mem_imports_iff`, `headerShows_of_stop`.
- **One import more.** `Stays`; `ensureImport_eq_iff`, `declaredImports_ensureImport`.
- **Without imports.** `settled_splitAtPackage`, `mem_imports_of_header`, `not_stays_again`.
- **The condition.** `AddsInCode`; `ImportsOnce.addsInCode`, `importsOnce_of_addsInCode`; `importsOnce_iff`,
  `not_importsOnce_commentedPackage`.
- **Plain texts.** `PlainImports`; `importsOnce_iff_of_plain`.
-/

namespace JavaMend.Java

open JavaMend Text

/-! ## The promise -/

/-- A target as an import line can hold it: its words stand apart by single spaces, and no comment or literal begins or
    ends in it. -/
structure Importable (target : Text) : Prop where
  spaced : Spaced target
  plain : ∀ c ∈ target, c ≠ '/' ∧ c ≠ '"' ∧ c ≠ '\''

theorem not_isIdentChar_of_isBlank {c : Char} (h : isBlank c = true) : isIdentChar c = false := by
  have hblank : ∀ n ∈ [0x9, 0xA, 0xB, 0xC, 0xD, 0x20, 0x85, 0xA0, 0x1680, 0x2000, 0x2001, 0x2002, 0x2003, 0x2004, 0x2005,
      0x2006, 0x2007, 0x2008, 0x2009, 0x200A, 0x2028, 0x2029, 0x202F, 0x205F, 0x3000], isIdentChar (Char.ofNat n) = false := by
    decide +kernel
  rw [← Char.ofNat_toNat c]
  refine hblank c.toNat ?_
  simp only [isBlank, Bool.or_eq_true, Bool.and_eq_true, decide_eq_true_eq, beq_iff_eq] at h
  simp only [List.mem_cons, List.not_mem_nil, or_false]
  omega

/-- A dotted name can be imported. -/
theorem importable_of_dotted {target : Text} (hne : target ≠ []) (h : ∀ c ∈ target, isIdentChar c = true ∨ c = '.') :
    Importable target := by
  have hmarks : isIdentChar '/' = false ∧ isIdentChar '"' = false ∧ isIdentChar '\'' = false := by decide +kernel
  refine ⟨spaced_of_forall_not_blank hne fun c hc => ?_, fun c hc => ?_⟩
  · rcases h c hc with hident | rfl
    · refine Bool.eq_false_iff.2 fun hblank => ?_
      rw [not_isIdentChar_of_isBlank hblank] at hident
      cases hident
    · decide
  · rcases h c hc with hident | rfl
    · refine ⟨?_, ?_, ?_⟩ <;> rintro rfl <;> simp_all
    · decide

/-- **A text imports a target once**: if the target is declared in the code of the text, nothing changes when it is added;
    else it is declared once behind that and every other import is kept; and adding it again changes nothing. -/
structure ImportsOnce (t target : Text) : Prop where
  present : target ∈ declaredImports t → ensureImport t target = t
  once : target ∉ declaredImports t → (declaredImports (ensureImport t target)).count target = 1
  kept : ∀ u ∈ declaredImports t, u ∈ declaredImports (ensureImport t target)
  again : ensureImport (ensureImport t target) target = ensureImport t target

/-! ## Scans -/

/-- The imports of a region are those that the scan of the header finds. -/
theorem filterMap_region (ls : List Text) :
    (layoutLines ls).region.filterMap importTarget? = headerShows importTarget? ls := by
  by_cases h : (layoutLines ls).region = []
  · obtain ⟨-, hbody⟩ := layoutLines_of_region_eq_nil h
    rw [h, List.filterMap_nil]
    refine (List.filterMap_eq_nil_iff.2 fun l hl => importTarget?_eq_none (Bool.eq_false_iff.2 fun himport => ?_)).symm
    -- All of the header would stand below its last import.
    have hany : (ls.takeWhile isHeaderLine).any isImport = true := List.any_eq_true.2 ⟨l, hl, himport⟩
    unfold layoutLines at hbody
    simp only [if_pos hany] at hbody
    conv at hbody => rhs; rw [← List.takeWhile_append_dropWhile (p := isHeaderLine) (l := ls)]
    rw [← List.append_cancel_right hbody, List.mem_reverse] at hl
    have hnone := List.all_eq_true.1 List.all_takeWhile l hl
    rw [himport] at hnone
    cases hnone
  · have hdelimited := delimited_layoutLines h
    conv => rhs; rw [← layoutLines_lines ls]
    rw [headerShows_append hdelimited.opens, List.filterMap_append, filterMap_importTarget?_eq_nil hdelimited.head,
      hdelimited.body, List.append_nil, List.nil_append]

/-- A target is among the imports of a text if a line that the scan of the header sees imports it. -/
theorem mem_imports_iff {t target : Text} :
    target ∈ (layout t).imports ↔ target ∈ headerShows target? (splitOn '\n' t) := by
  rw [Layout.imports, layout, filterMap_region, headerShows, headerShows, List.map_filterMap]
  rfl

section
variable {α : Type} {f : Text → Option α}

/-- What the scan of a header sees ends at a line that is none of the header. -/
theorem headerShows_of_stop {ls : List Text} (h : ∃ l ∈ ls, isHeaderLine l = false) (ks : List Text) :
    headerShows f (ls ++ ks) = headerShows f ls := by
  induction ls with
  | nil => simp at h
  | cons l ls ih =>
    unfold headerShows at ih ⊢
    cases hl : isHeaderLine l with
    | false => simp [hl]
    | true =>
      have hrest : ∃ k ∈ ls, isHeaderLine k = false := by
        obtain ⟨k, hk, hstop⟩ := h
        rcases List.mem_cons.1 hk with rfl | hk
        · rw [hl] at hstop
          cases hstop
        · exact ⟨k, hk, hstop⟩
      rw [List.cons_append, List.takeWhile_cons_of_pos hl, List.takeWhile_cons_of_pos hl, List.filterMap_cons,
        List.filterMap_cons, ih hrest]

end

/-! ## One import more -/

/-- The scan of the header finds the target, or takes it for redundant. -/
def Stays (t target : Text) : Prop := isRedundant (layout t).package target = true ∨ target ∈ (layout t).imports

theorem ensureImport_of_stays {t target : Text} (h : Stays t target) : ensureImport t target = t := by
  have hcond : (isRedundant (layout t).package target || (layout t).imports.contains target) = true := by
    rw [Bool.or_eq_true, List.contains_iff_mem]
    exact h
  rw [ensureImport, if_pos hcond]

theorem ensureImport_of_not_stays {t target : Text} (h : ¬ Stays t target) :
    ensureImport t target = rebuild (layout t) (target :: (layout t).imports) (t.getLast? == some '\n') := by
  have hcond : ¬ (isRedundant (layout t).package target || (layout t).imports.contains target) = true := by
    rw [Bool.or_eq_true, List.contains_iff_mem]
    exact h
  rw [ensureImport, if_neg hcond]

theorem newline_not_mem_of_spaced {target : Text} (h : Spaced target) : '\n' ∉ target := by
  intro hmem
  rw [← show joinWith [' '] (words target) = target from h] at hmem
  rcases mem_joinWith hmem with hsep | ⟨w, hw, hc⟩
  · exact absurd hsep (by decide)
  · exact absurd ((mem_words hw).2.1 _ hc) (by decide)

/-- The targets that are written when one is added are spaced. -/
theorem spaced_cons_imports {t target : Text} (h : Importable target) : ∀ u ∈ target :: (layout t).imports, Spaced u := by
  refine List.forall_mem_cons.2 ⟨h.spaced, fun u hu => ?_⟩
  rw [imports_eq] at hu
  obtain ⟨line, -, hline⟩ := List.mem_filterMap.1 hu
  exact (target?_spec hline).1

/-- A text without imports is cut at its package clause. -/
theorem cut_lines {t : Text} (hregion : (layout t).region = []) :
    (layout t).cut = splitAtPackage (splitOn '\n' t) ∧ (layout t).cut.1 ++ (layout t).cut.2 = splitOn '\n' t := by
  have hbody : (layout t).body = splitOn '\n' t := (layoutLines_of_region_eq_nil hregion).2
  have hcut : (layout t).cut = splitAtPackage (splitOn '\n' t) := by
    rw [Layout.cut, hregion, hbody]
    rfl
  exact ⟨hcut, hcut ▸ splitAtPackage_lines _⟩

section
variable {t target : Text} (h : Importable target) (hstays : ¬ Stays t target)
include h hstays

/-- **What is added is found** if the text has imports. -/
theorem mem_imports_ensureImport (hregion : (layout t).region ≠ []) : target ∈ (layout (ensureImport t target)).imports := by
  have hspaced := spaced_cons_imports (t := t) h
  have hdelimited : (layout t).Delimited := delimited_layoutLines hregion
  rw [ensureImport_of_not_stays hstays, (canonical_rebuild _ hdelimited hregion hspaced
    (fun _ => newline_not_mem_layout) fun u hu => newline_not_mem_of_spaced (hspaced u hu)).2, mem_sortTargets]
  exact List.mem_cons_self

/-- **Something is added** where the scan of the header finds nothing. -/
theorem ensureImport_ne : ensureImport t target ≠ t := by
  intro hsame
  by_cases hregion : (layout t).region = []
  · have hspaced := spaced_cons_imports (t := t) h
    have hlines := @nonblank_rebuild (layout t) (target :: (layout t).imports) (t.getLast? == some '\n')
      (fun _ => newline_not_mem_layout) fun u hu => newline_not_mem_of_spaced (hspaced u hu)
    have hstrays : (layout t).strays = [] := by rw [Layout.strays, hregion, List.filter_nil]
    rw [← ensureImport_of_not_stays hstays, hsame, ← (cut_lines hregion).2, hstrays, List.append_nil, nonblank_append] at hlines
    have hlength := congrArg List.length hlines
    have hblock : 0 < (block (target :: (layout t).imports)).length := by
      refine List.length_pos_of_mem (List.mem_map.2 ⟨target, mem_sortTargets.2 List.mem_cons_self, rfl⟩)
    simp only [List.length_append] at hlength
    omega
  · exact hstays (.inr (hsame ▸ mem_imports_ensureImport h hstays hregion))

/-- The imports of the text with the new one. -/
theorem declaredImports_ensureImport : declaredImports (ensureImport t target) =
    importsOf .code [(layout t).cut.1, block (target :: (layout t).imports), (layout t).strays, (layout t).cut.2] := by
  rw [ensureImport_of_not_stays hstays]
  exact declaredImports_rebuild _ (fun _ => newline_not_mem_layout) fun u hu =>
    newline_not_mem_of_spaced (spaced_cons_imports h u hu)

end

/-- Nothing changes exactly where the scan of the header finds the target or takes it for redundant. -/
theorem ensureImport_eq_iff {t target : Text} (h : Importable target) : ensureImport t target = t ↔ Stays t target :=
  ⟨fun hsame => not_not.1 fun hstays => ensureImport_ne h hstays hsame, ensureImport_of_stays⟩

/-! ## Without imports -/

/-- In a block comment nothing of a line without a slash is code. -/
theorem showFrom_of_block {l : Text} (h : '/' ∉ l) :
    showFrom .block l = l.map (mask .blockComment) ∧ exit .block l = .block := by
  induction l with
  | nil => exact ⟨rfl, rfl⟩
  | cons c l ih =>
    rw [List.mem_cons, not_or] at h
    have hmode : step .block c l.head? = (mask .blockComment c, .block) := by
      have hopen : ¬ (c = '*' ∧ l.head? = some '/') := fun hclose => h.2 (List.mem_of_mem_head? hclose.2)
      rw [step, if_neg hopen]
    rw [showFrom_cons, exit_cons, hmode, (ih h.2).1, (ih h.2).2]
    exact ⟨rfl, rfl⟩

/-- A line in a block comment imports nothing. -/
theorem importsFrom_block {l : Text} (h : '/' ∉ l) : importsFrom .block [l] = [] := by
  have hnone : target? (l.map (mask .blockComment)) = none := by
    refine target?_eq_none fun hmem => ?_
    obtain ⟨c, -, hc⟩ := List.mem_map.1 hmem
    change (if c = '\n' then '\n' else ' ') = 'i' at hc
    split at hc <;> exact absurd hc (by decide)
  rw [importsFrom_cons, (showFrom_of_block h).1, hnone]
  rfl

/-- A mode that carries nothing over a line end is that of code or of a block comment. -/
theorem Mode.Settled.eq {m : Mode} (h : m.Settled) : m = .code ∨ m = .block := by
  cases m with
  | code => exact .inl rfl
  | block => exact .inr rfl
  | _ => cases h

/-- A line that does not end with a backslash carries nothing over its end. -/
theorem settled_exit_of_getLast? {m : Mode} {l : Text} (hne : l ≠ []) (h : l.getLast? ≠ some '\\') : (exit m l).Settled := by
  induction l generalizing m with
  | nil => exact absurd rfl hne
  | cons c l ih =>
    rw [exit_cons]
    cases l with
    | nil =>
      have hc : c ≠ '\\' := fun hc => h (hc ▸ rfl)
      have hmode : ∀ q, (step m c none).2 ≠ .escaped q := by
        intro q
        cases m <;> simp only [step] <;> (repeat' split) <;> simp_all
      change (exit (step m c none).2 []).Settled
      generalize (step m c none).2 = m' at hmode
      cases m' with
      | escaped q => exact absurd rfl (hmode q)
      | _ => rfl
    | cons d l => exact ih (by simp) (by rwa [List.getLast?_cons_cons] at h)

/-- A header line that opens like a package clause ends with a semicolon, white space apart. -/
theorem getLast?_trim {l : Text} (hopens : startsWith (text "package ") (trim l) = true) (h : isHeaderLine l = true) :
    (trim l).getLast? = some ';' := by
  obtain ⟨rest, hrest⟩ := Option.isSome_iff_exists.1 hopens
  have hline : trim l = text "package " ++ rest := dropPrefix?_eq_some.1 hrest
  have hnoise : isHeaderNoise l = false := by
    have hblank : isBlankLine l = false := Bool.eq_false_iff.2 fun hblank => by
      rw [trim_of_blank hblank] at hline
      cases hline
    rw [isHeaderNoise, hblank, hline]
    rfl
  have himport : isImport l = false := by
    rw [isImport, importTarget?, hline]
    rfl
  rw [isHeaderLine, himport, hnoise, Bool.or_false, Bool.or_false] at h
  obtain ⟨name, hname⟩ := Option.isSome_iff_exists.1 h
  simp only [packageClause?, Option.bind_eq_bind, Option.bind_eq_some_iff] at hname
  obtain ⟨tail, htail, found, hfound, -⟩ := hname
  rw [dropPrefix?_eq_some.1 htail, dropSuffix?_eq_some.1 hfound, ← List.append_assoc, List.getLast?_concat]

/-- A line ends in white space or as it does when trimmed. -/
theorem getLast?_of_trim {l : Text} {c : Char} (h : (trim l).getLast? = some c) :
    ∃ d, l.getLast? = some d ∧ (d = c ∨ isBlank d = true) := by
  obtain ⟨b, hb, hblank⟩ := exists_trimEnd (trimStart l)
  have hl : l = l.takeWhile isBlank ++ (trim l ++ b) := by
    rw [trim, ← hb, trimStart, List.takeWhile_append_dropWhile]
  have hne : trim l ≠ [] := by
    intro hnil
    rw [hnil] at h
    cases h
  rw [hl, List.getLast?_append_of_ne_nil _ (by simp [hne])]
  cases hend : b.getLast? with
  | none =>
    rw [List.getLast?_eq_none_iff.1 hend, List.append_nil]
    exact ⟨c, h, .inl rfl⟩
  | some d =>
    have hmem : d ∈ b := List.mem_of_getLast? hend
    rw [List.getLast?_append_of_ne_nil _ (List.ne_nil_of_mem hmem)]
    exact ⟨d, hend, .inr (hblank d hmem)⟩

/-- The text above the block of a text without imports carries nothing over its end, if it is all header. -/
theorem settled_splitAtPackage {ls : List Text} (h : ∀ l ∈ (splitAtPackage ls).1, isHeaderLine l = true) :
    (exits .code (splitAtPackage ls).1).Settled := by
  unfold splitAtPackage at h ⊢
  simp only at h ⊢
  split
  · rename_i hany
    rw [if_pos hany] at h
    cases hrest : ls.dropWhile fun l => !startsWith (text "package ") (trim l) with
    | nil =>
      obtain ⟨l, hl, hopens⟩ := List.any_eq_true.1 hany
      have hnone := List.dropWhile_eq_nil_iff.1 hrest l hl
      rw [hopens] at hnone
      cases hnone
    | cons l rest =>
      have hopens : startsWith (text "package ") (trim l) = true := by simpa using not_of_dropWhile_cons hrest
      obtain ⟨d, hd, hend⟩ := getLast?_of_trim (getLast?_trim hopens (h l (by simp [hrest])))
      have hne : l ≠ [] := by
        rintro rfl
        cases hd
      have hbackslash : l.getLast? ≠ some '\\' := by
        rw [hd]
        rintro ⟨⟩
        rcases hend with hsemicolon | hblank
        · exact absurd hsemicolon (by decide)
        · exact absurd hblank (by decide)
      rw [List.take_succ_cons, List.take_zero, exits_append]
      exact settled_exit_of_getLast? hne hbackslash
  · rfl

section
variable {t target : Text} (h : Importable target) (hstays : ¬ Stays t target) (hregion : (layout t).region = [])
include h hstays hregion

/-- The lines of a text without imports to which one is added. -/
theorem splitOn_ensureImport : ∃ ls, splitOn '\n' (ensureImport t target) =
    above (dropBlankEnd (layout t).cut.1) ++ [importLine target] ++ ls := by
  have hspaced := spaced_cons_imports (t := t) h
  have himports : (layout t).imports = [] := by rw [imports_eq, hregion, List.filterMap_nil]
  have hblock : block [target] = [importLine target] := rfl
  have hshown : shownSections (layout t) [target] (t.getLast? == some '\n') ≠ [] :=
    List.ne_nil_of_mem (mem_shownSections.2 ⟨by simp [Layout.sections], by simp [hblock]⟩ : block [target] ∈ _)
  rw [ensureImport_of_not_stays hstays, himports, splitOn_rebuild (fun _ => newline_not_mem_layout)
    (fun u hu => newline_not_mem_of_spaced (hspaced u (by simpa [himports] using hu))) hshown, shownSections,
    Layout.sections, spaced_around _ (by simp [hblock]), hblock, List.append_assoc]
  exact ⟨_, rfl⟩

/-- Where all lines above the block are header lines, what is added is found. -/
theorem mem_imports_of_header (hheader : ∀ line ∈ (layout t).cut.1, isHeaderLine line = true) :
    target ∈ (layout (ensureImport t target)).imports := by
  obtain ⟨ls, hls⟩ := splitOn_ensureImport h hstays hregion
  have htop : ∀ line ∈ above (dropBlankEnd (layout t).cut.1) ++ [importLine target], isHeaderLine line = true := by
    intro line hline
    rcases List.mem_append.1 hline with hline | hline
    · unfold above at hline
      split at hline
      · cases hline
      · rcases List.mem_append.1 hline with hline | hline
        · obtain ⟨blanks, hcut, -⟩ := exists_blanks_dropBlankEnd (layout t).cut.1
          exact hheader line (hcut ▸ List.mem_append_left _ hline)
        · rw [List.mem_singleton.1 hline]
          decide
    · rw [List.mem_singleton.1 hline]
      simp [isHeaderLine, isImport_importLine h.spaced]
  rw [mem_imports_iff, hls, headerShows_append htop, List.filterMap_append, List.mem_append, List.mem_append]
  exact .inl (.inr (by simp [target?_importLine h.spaced]))

/-- Where some line above the block is none, the scan of the header ends there, and finds what it found before. -/
theorem not_stays_again (hstop : ∃ line ∈ (layout t).cut.1, isHeaderLine line = false) :
    ¬ Stays (ensureImport t target) target := by
  obtain ⟨ls, hls⟩ := splitOn_ensureImport h hstays hregion
  obtain ⟨blanks, hcut, hblank⟩ := exists_blanks_dropBlankEnd (layout t).cut.1
  have hstop : ∃ line ∈ dropBlankEnd (layout t).cut.1, isHeaderLine line = false := by
    obtain ⟨line, hline, hnone⟩ := hstop
    rw [hcut] at hline
    refine ⟨line, (List.mem_append.1 hline).resolve_right fun hmem => ?_, hnone⟩
    rw [isHeaderLine_of_blank (hblank line hmem)] at hnone
    cases hnone
  have hshows {α : Type} (f : Text → Option α) :
      headerShows f (splitOn '\n' (ensureImport t target)) = headerShows f (splitOn '\n' t) := by
    have habove : above (dropBlankEnd (layout t).cut.1) = dropBlankEnd (layout t).cut.1 ++ [[]] := by
      obtain ⟨line, hline, -⟩ := hstop
      rw [above, if_neg fun hempty => List.ne_nil_of_mem hline (List.isEmpty_iff.1 hempty)]
    rw [hls, ← (cut_lines hregion).2]
    conv => rhs; rw [hcut]
    rw [habove, List.append_assoc, List.append_assoc, List.append_assoc, headerShows_of_stop hstop,
      headerShows_of_stop hstop]
  rintro (hredundant | himport)
  · rw [layout, layoutLines_package, hshows, ← layoutLines_package] at hredundant
    exact hstays (.inl hredundant)
  · rw [mem_imports_iff, hshows, ← mem_imports_iff] at himport
    exact hstays (.inr himport)

/-- In code, the new import comes between those above it and those below. -/
theorem declaredImports_of_code (hcode : exits .code (layout t).cut.1 = .code) :
    declaredImports (ensureImport t target) =
      importsFrom .code (layout t).cut.1 ++ target :: importsFrom .code (layout t).cut.2 := by
  have himports : (layout t).imports = [] := by rw [imports_eq, hregion, List.filterMap_nil]
  have hstrays : (layout t).strays = [] := by rw [Layout.strays, hregion, List.filter_nil]
  have hplain : ∀ u ∈ [target], Spaced u ∧ quiet u = true := by simpa using ⟨h.spaced, quiet_of_forall h.plain⟩
  obtain ⟨hblock, hexits⟩ := importsFrom_importLines hplain
  have hsorted : block [target] = [target].map importLine := rfl
  have hsettled : exit .code [] = .code := rfl
  rw [declaredImports_ensureImport h hstays, himports, hstrays, hsorted]
  simp only [importsOf, hcode, hsettled, hblock, hexits, exits_nil, importsFrom_nil, List.nil_append, List.append_nil,
    List.singleton_append]

/-- In a block comment, nothing is declared that was not. -/
theorem declaredImports_of_block (hblock : exits .code (layout t).cut.1 = .block) :
    declaredImports (ensureImport t target) = declaredImports t := by
  have himports : (layout t).imports = [] := by rw [imports_eq, hregion, List.filterMap_nil]
  have hstrays : (layout t).strays = [] := by rw [Layout.strays, hregion, List.filter_nil]
  have hslash : '/' ∉ importLine target := by
    intro hmem
    rcases List.mem_append.1 hmem with hmem | hmem
    · rcases List.mem_append.1 hmem with hmem | hmem
      · exact absurd hmem (by decide)
      · exact (h.plain _ hmem).1 rfl
    · exact absurd hmem (by decide)
  have hsettled : exit .block [] = .block := rfl
  have hsorted : block [target] = [importLine target] := rfl
  have hexits : exits .block [importLine target] = .block := (showFrom_of_block hslash).2
  rw [declaredImports_ensureImport h hstays, himports, hstrays, hsorted, declaredImports_eq, ← (cut_lines hregion).2,
    importsFrom_append]
  simp only [importsOf, hblock, hsettled, importsFrom_block hslash, hexits, exits_nil, importsFrom_nil, List.nil_append,
    List.append_nil]

end

/-! ## The condition -/

/-- The imports of the sections of a text that has a target added to its block. -/
def addedImports (t target : Text) : List Text :=
  importsOf .code [(layout t).cut.1, block (target :: (layout t).imports), (layout t).strays, (layout t).cut.2]

/-- The place of the block is one where imports are read. Without imports it stands in code and the lines above it are all
    header lines; with imports the block declares the target once, and every import is still declared. -/
def AddsInCode (t target : Text) : Prop :=
  if (layout t).region = [] then
    (∀ line ∈ (layout t).cut.1, isHeaderLine line = true) ∧ exits .code (layout t).cut.1 = .code
  else (addedImports t target).count target = 1 ∧ ∀ u ∈ declaredImports t, u ∈ addedImports t target

/-- An import that is added once was not declared before, and stands in code. -/
theorem ImportsOnce.addsInCode {t target : Text} (himports : ImportsOnce t target) (h : Importable target)
    (hstays : ¬ Stays t target) : target ∉ declaredImports t ∧ AddsInCode t target := by
  have hne := ensureImport_ne h hstays
  have hnone : target ∉ declaredImports t := fun hmem => hne (himports.present hmem)
  refine ⟨hnone, ?_⟩
  unfold AddsInCode
  split
  · rename_i hregion
    have hheader : ∀ line ∈ (layout t).cut.1, isHeaderLine line = true := by
      by_contra hsome
      push Not at hsome
      obtain ⟨line, hline, hstop⟩ := hsome
      have hagain := not_stays_again h hstays hregion ⟨line, hline, Bool.eq_false_iff.2 hstop⟩
      exact ensureImport_ne h hagain himports.again
    refine ⟨hheader, ?_⟩
    have hsettled : (exits .code (layout t).cut.1).Settled := by
      rw [(cut_lines hregion).1] at hheader ⊢
      exact settled_splitAtPackage hheader
    refine hsettled.eq.resolve_right fun hblock => ?_
    have honce := himports.once hnone
    rw [declaredImports_of_block h hstays hregion hblock, List.count_eq_zero_of_not_mem hnone] at honce
    cases honce
  · rw [addedImports, ← declaredImports_ensureImport h hstays]
    exact ⟨himports.once hnone, himports.kept⟩

/-- An import that was not declared and is added in code is there once, with the imports that were declared. -/
theorem importsOnce_of_addsInCode {t target : Text} (h : Importable target) (hstays : ¬ Stays t target)
    (hnone : target ∉ declaredImports t) (hcode : AddsInCode t target) : ImportsOnce t target := by
  unfold AddsInCode at hcode
  split at hcode
  · rename_i hregion
    obtain ⟨hheader, hcode⟩ := hcode
    have hbefore : declaredImports t =
        importsFrom .code (layout t).cut.1 ++ importsFrom .code (layout t).cut.2 := by
      rw [declaredImports_eq, ← (cut_lines hregion).2, importsFrom_append, hcode]
    have hafter := declaredImports_of_code h hstays hregion hcode
    refine ⟨fun hmem => absurd hmem hnone, fun _ => ?_, fun u hu => ?_, ?_⟩
    · rw [hbefore, List.mem_append, not_or] at hnone
      rw [hafter, List.count_append, List.count_cons_self, List.count_eq_zero_of_not_mem hnone.1,
        List.count_eq_zero_of_not_mem hnone.2]
    · rw [hbefore, List.mem_append] at hu
      rw [hafter, List.mem_append, List.mem_cons]
      exact hu.imp_right .inr
    · exact ensureImport_of_stays (.inr (mem_imports_of_header h hstays hregion hheader))
  · rename_i hregion
    rw [addedImports, ← declaredImports_ensureImport h hstays] at hcode
    exact ⟨fun hmem => absurd hmem hnone, fun _ => hcode.1, hcode.2,
      ensureImport_of_stays (.inr (mem_imports_ensureImport h hstays hregion))⟩

/-- **Exactly where the scan of the header finds what the code of the text declares**, and the block stands in code, is a
    target imported once. -/
theorem importsOnce_iff {t target : Text} (h : Importable target) :
    ImportsOnce t target ↔
      (Stays t target → target ∈ declaredImports t)
        ∧ (¬ Stays t target → target ∉ declaredImports t ∧ AddsInCode t target) := by
  by_cases hstays : Stays t target
  · have hsame := ensureImport_of_stays hstays
    refine ⟨fun himports => ⟨fun _ => ?_, fun hnot => absurd hstays hnot⟩, fun ⟨hpresent, _⟩ => ?_⟩
    · by_contra hnone
      have honce := himports.once hnone
      rw [hsame, List.count_eq_zero_of_not_mem hnone] at honce
      cases honce
    · exact ⟨fun _ => hsame, fun hnone => absurd (hpresent hstays) hnone, fun u hu => hsame.symm ▸ hu, by rw [hsame, hsame]⟩
  · refine ⟨fun himports => ⟨fun hyes => absurd hyes hstays, fun _ => himports.addsInCode h hstays⟩, fun ⟨_, hadds⟩ => ?_⟩
    obtain ⟨hnone, hcode⟩ := hadds hstays
    exact importsOnce_of_addsInCode h hstays hnone hcode

/-- A comment behind the package clause hides the import that is there from the scan of the header. -/
theorem not_importsOnce_commentedPackage :
    ¬ ImportsOnce (text "package p; // c\n\nimport a.B;\n\nclass A \x7b\n\x7d\n") (text "a.B") := by
  intro h
  have hpresent := h.present (by decide +kernel)
  revert hpresent
  decide +kernel

/-- Another import of a text with a comment in its header. -/
theorem importsOnce_iff_other :
    Importable (text "c.D") ∧ ImportsOnce (text "package p;\n\n// c\nimport a.B;\n\nclass A \x7b\n\x7d\n") (text "c.D") := by
  have himportable : Importable (text "c.D") := ⟨by unfold Spaced; decide +kernel, by simp [text]⟩
  refine ⟨himportable, (importsOnce_iff himportable).2 ⟨?_, fun _ => ⟨by decide +kernel, ?_⟩⟩⟩
  · unfold Stays
    decide +kernel
  · unfold AddsInCode
    decide +kernel

/-! ## Plain texts -/

/-- **The imports of a text read as they look**: nothing is left open above the block, the lines of the region are what they
    look like, and without a region the scan of the header sees the package clause. -/
structure PlainImports (t : Text) : Prop where
  header : (layout t).region = [] → ∀ line ∈ (layout t).cut.1, isHeaderLine line = true
  above : exits .code (layout t).cut.1 = .code
  region : ReadsPlainly .code (layout t).region

theorem nodup_sortTargets (targets : List Text) : (sortTargets targets).Nodup := by
  refine (pairwise_sortTargets targets).imp fun hahead hsame => ?_
  subst hsame
  rcases hahead with ⟨hno, hyes⟩ | ⟨-, hlt⟩
  · rw [hno] at hyes
    cases hyes
  · exact List.lt_irrefl _ hlt

section
variable {t target : Text} (h : Importable target) (hplain : PlainImports t)
include hplain

/-- What a text with imports declares if they read as they look. -/
theorem mem_declaredImports_of_plain (hregion : (layout t).region ≠ []) {u : Text} :
    u ∈ declaredImports t ↔
      u ∈ importsFrom .code (layout t).head ∨ (u ∈ (layout t).imports ∨ u ∈ importsFrom .code (layout t).strays)
        ∨ u ∈ importsFrom .code (layout t).body := by
  have hhead : exits .code (layout t).head = .code := by
    have habove := hplain.above
    rwa [Layout.cut_of_region hregion] at habove
  obtain ⟨hexits, -, hmem⟩ := readsPlainly_spec hplain.region
  rw [declaredImports_eq, ← layoutLines_lines (splitOn '\n' t), importsFrom_append, importsFrom_append, exits_append]
  change u ∈ importsFrom .code (layout t).head ++ importsFrom (exits .code (layout t).head) (layout t).region
    ++ importsFrom (exits (exits .code (layout t).head) (layout t).region) (layout t).body ↔ _
  rw [hhead, hexits, List.mem_append, List.mem_append, hmem, imports_eq, or_assoc]
  rfl

include h

/-- The block of plain imports is read in code. -/
theorem addedImports_of_plain (hregion : (layout t).region ≠ []) :
    addedImports t target = importsFrom .code (layout t).head ++ (sortTargets (target :: (layout t).imports)
      ++ (importsFrom .code (layout t).strays ++ importsFrom .code (layout t).body)) := by
  have hhead := hplain.above
  rw [Layout.cut_of_region hregion] at hhead
  have hwritten : ∀ u ∈ sortTargets (target :: (layout t).imports), Spaced u ∧ quiet u = true := by
    intro u hu
    rw [mem_sortTargets] at hu
    refine ⟨spaced_cons_imports h u hu, ?_⟩
    rcases List.mem_cons.1 hu with rfl | hu
    · exact quiet_of_forall h.plain
    · rw [imports_eq] at hu
      exact quiet_of_readsPlainly hplain.region u hu
  obtain ⟨hblock, hexits⟩ := importsFrom_importLines hwritten
  obtain ⟨-, hstrays, -⟩ := readsPlainly_spec hplain.region
  have hsection : (layout t).strays = straysOf (layout t).region := rfl
  have hsettled : exit .code [] = .code := rfl
  rw [addedImports, Layout.cut_of_region hregion, block_eq]
  simp only [importsOf, hhead, hsettled, hblock, hexits, hsection, hstrays, List.append_nil]

/-- **Under a header that reads as it looks** a target is imported once exactly if an import of it that is there is found,
    whatever else the text declares. -/
theorem importsOnce_iff_of_plain (hneeded : isRedundant (layout t).package target = false) :
    ImportsOnce t target ↔ (target ∈ declaredImports t → target ∈ (layout t).imports) := by
  have hstays : Stays t target ↔ target ∈ (layout t).imports := by simp [Stays, hneeded]
  rw [importsOnce_iff h, hstays]
  by_cases himport : target ∈ (layout t).imports
  · have hregion : (layout t).region ≠ [] := by
      intro hnil
      rw [imports_eq, hnil] at himport
      cases himport
    have hdeclared := (mem_declaredImports_of_plain hplain hregion).2 (.inr (.inl (.inl himport)))
    exact iff_of_true ⟨fun _ => hdeclared, fun hnot => absurd himport hnot⟩ fun _ => himport
  · refine ⟨fun hadds hmem => absurd hmem (hadds.2 himport).1, fun hfound => ⟨fun hyes => absurd hyes himport, fun _ => ?_⟩⟩
    have hnone : target ∉ declaredImports t := fun hmem => himport (hfound hmem)
    refine ⟨hnone, ?_⟩
    unfold AddsInCode
    split
    · rename_i hregion
      exact ⟨hplain.header hregion, hplain.above⟩
    · rename_i hregion
      have hmem {u : Text} := mem_declaredImports_of_plain hplain hregion (u := u)
      rw [addedImports_of_plain h hplain hregion]
      constructor
      · rw [hmem] at hnone
        simp only [not_or] at hnone
        rw [List.count_append, List.count_append, List.count_append, List.count_eq_zero_of_not_mem hnone.1,
          List.count_eq_zero_of_not_mem hnone.2.1.2, List.count_eq_zero_of_not_mem hnone.2.2,
          List.count_eq_one_of_mem (nodup_sortTargets _) (mem_sortTargets.2 List.mem_cons_self)]
      · intro u hu
        simp only [List.mem_append, mem_sortTargets, List.mem_cons]
        rcases hmem.1 hu with hhead | (himports | hstrays) | hbody
        · exact .inl hhead
        · exact .inr (.inl (.inr himports))
        · exact .inr (.inr (.inl hstrays))
        · exact .inr (.inr (.inr hbody))

end

end JavaMend.Java
