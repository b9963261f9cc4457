import JavaMend.Proofs.Java.ThinnedLines

/-!
# `Proofs.Java.TidyOnce` — a tidy text is left alone

Each edit of the catalogue leaves its result in a form that can be said of the text on its own, and that the later edits
keep: trimmed lines, casts that stand apart, named types, and lines without empty statements at their end. In that form
each edit finds nothing to do, so tidying a second time changes nothing (`tidy_settles`).

## Contents
- **Types.** `Inferred`; `inCode_inferred_nameUndefined`, `nameUndefined_of_inCode`, `inCode_castApart_nameUndefined`.
- **Lines.** `splitOn_mapLines`, `stripLineEnds_of_endsTrimmed`, `dropEmpty_of_mem`.
- **Blank lines.** `NotBoth`; `isChain_squeezeBlank`, `splitOn_collapseBlankLines`, `collapseBlankLines_idem`.
- **Tidy texts.** `InOrder`; `endsTrimmed_tidy`, `inCode_castApart_tidy`, `tidy_of_fixed`, `tidy_settles`.
-/

namespace JavaMend.Java

open JavaMend Text

/-! ## Types -/

/-- The name of a type that could not be inferred. -/
def undefinedType : Text := text "<undefinedtype>"

/-- The text does not open with it. -/
def Inferred (t : Text) : Prop := startsWith undefinedType t = false

theorem nameUndefined_eq (t : Text) :
    nameUndefined t = mapCode (substitute (findWord undefinedType) fun _ _ => text "Object") t := rfl

theorem findWord_eq_some {word t m : Text} {before : Option Char} {a : Unit} (h : findWord word before t = some (m, a)) :
    m = word ∧ startsWith word t = true := by
  unfold findWord at h
  split at h
  · cases h
    exact ⟨rfl, ‹_›⟩
  · cases h

theorem editsCode_undefinedType : EditsCode (findWord undefinedType) fun _ _ => text "Object" where
  faithful := faithful_findWord (by decide)
  behind before t := rfl
  ahead {d} x y hd := by
    have hmem : d ∉ undefinedType := by
      simp only [canOpen, Bool.or_eq_true, beq_iff_eq, isQuote_iff] at hd
      rcases hd with rfl | rfl | rfl <;> decide
    rw [findWord, findWord, startsWith, startsWith, dropPrefix?_append_cons hmem, Option.isSome_map]
  hit h := by
    obtain ⟨rfl, -⟩ := findWord_eq_some h
    exact ⟨by decide, List.all_eq_true.1 (by decide)⟩
  written _ := by
    refine ⟨by decide, fun c hc => ?_⟩
    have hall : (text "Object").all (fun c => staysCode c && !isBlank c) = true := by decide
    simpa using List.all_eq_true.1 hall c hc

theorem passes_undefinedType :
    Passes (fun c => staysCode c && c != 'O') (CodeEdited (findWord undefinedType) (fun _ _ => text "Object") .code) :=
  passes_codeEdited editsCode_undefinedType fun _ _ _ _ => rfl

theorem not_startsWith_cons {c d : Char} (h : c ≠ d) (w t : Text) : startsWith (d :: w) (c :: t) = false := by
  rw [startsWith, dropPrefix?, if_neg h.symm, Option.isSome_none]

/-- **No type is left unnamed.** -/
theorem inCode_inferred_nameUndefined (t : Text) : InCode Inferred .code (nameUndefined t) := by
  have hedited := codeEdited_mapCode editsCode_undefinedType t
  rw [← nameUndefined_eq] at hedited
  generalize nameUndefined t = s at hedited
  generalize Mode.code = m at hedited
  induction hedited with
  | nil => trivial
  | @keep m c t s hnone h ih =>
    have hstep := h.step_eq editsCode_undefinedType m c
    refine ⟨?_, hstep ▸ ih⟩
    rintro rfl
    -- What is spelled now was spelled before, and would have been found.
    refine Bool.eq_false_iff.2 fun hstarts => ?_
    have hbefore := startsWith_of_passes passes_undefinedType (List.all_eq_true.1 (by decide)) (.keep c hnone h) hstarts
    have hnone := hnone rfl
    rw [findWord, if_pos hbefore] at hnone
    cases hnone
  | hit _ _ ih =>
    have hall : (text "Object").all (fun c => staysCode c && c != '<') = true := by decide
    refine inCode_append (fun c hc => ?_) ih
    have hc := List.all_eq_true.1 hall c hc
    rw [Bool.and_eq_true, bne_iff_ne] at hc
    exact ⟨hc.1, not_startsWith_cons hc.2 (text "undefinedtype>")⟩

/-- **Where every type is named there is nothing to name.** -/
theorem nameUndefined_of_inCode {t : Text} (h : InCode Inferred .code t) : nameUndefined t = t := by
  rw [nameUndefined_eq]
  refine mapCode_of_inCode editsCode_undefinedType (h.mono fun u hu hne m a hfind => ?_)
  obtain ⟨c, u, rfl⟩ := List.exists_cons_of_ne_nil hne
  have hnot : Inferred (c :: u) := hu.1 rfl
  rw [Inferred, (findWord_eq_some hfind).2] at hnot
  cases hnot

/-- Casts stay apart when types are named. -/
theorem inCode_castApart_nameUndefined {t : Text} (h : InCode CastApart .code t) :
    InCode CastApart .code (nameUndefined t) := by
  have hcast : ∀ c, inCast c = true → (staysCode c && c != 'O') = true := fun c =>
    of_inCast (p := fun c => staysCode c && c != 'O') (by decide)
  have hblank : ∀ c, isBlank c = true → (staysCode c && c != 'O') = true := by
    intro c hc
    have hne : c ≠ 'O' := by
      rintro rfl
      exact absurd hc (by decide)
    simp [staysCode_of_isBlank hc, hne]
  rw [nameUndefined_eq]
  refine InCode.codeEdited editsCode_undefinedType (fun t s hedit => ?_) (fun t m a _ c hc => ?_)
    (codeEdited_mapCode editsCode_undefinedType t) h
  · refine castApart_of_passes passes_undefinedType hcast (fun t s next hedit hs => ?_) hedit
    refine ⟨nextCast_of_passes passes_undefinedType hcast hblank hedit hs, fun hhead => ?_⟩
    obtain ⟨c, hc, hblankc⟩ := (Option.any_eq_true _ _).1 hhead
    obtain ⟨s, rfl⟩ := List.head?_eq_some_iff.1 hc
    obtain ⟨u, rfl, -⟩ := passes_undefinedType c t s (hblank c hblankc) hedit
    exact hblankc
  · refine castApart_cons ?_
    rintro rfl
    exact absurd hc (by decide)

/-! ## Lines -/

theorem splitOn_mapLines {f : Text → Text} (hf : ∀ l, '\n' ∉ l → '\n' ∉ f l) (t : Text) :
    splitOn '\n' (mapLines f t) = (splitOn '\n' t).map f := by
  refine splitOn_joinWith (by simp [splitOn_ne_nil]) fun l hl => ?_
  obtain ⟨k, hk, rfl⟩ := List.mem_map.1 hl
  exact hf k (newline_not_mem_splitOn hk)

theorem mapLines_of_fixed {f : Text → Text} {t : Text} (h : ∀ l ∈ splitOn '\n' t, f l = l) : mapLines f t = t := by
  have hsame : (splitOn '\n' t).map f = splitOn '\n' t := (List.map_congr_left h).trans (List.map_id _)
  rw [mapLines, hsame, joinWith_splitOn]

theorem endsTrimmed_stripLineEnds (t : Text) : EndsTrimmed (stripLineEnds t) := by
  rw [endsTrimmed_iff, stripLineEnds, splitOn_mapLines fun l hl hmem => hl ((prefix_trimEnd l).subset hmem)]
  intro l hl
  obtain ⟨k, -, rfl⟩ := List.mem_map.1 hl
  exact List.rdropWhile_idempotent isBlank k

theorem stripLineEnds_of_endsTrimmed {t : Text} (h : EndsTrimmed t) : stripLineEnds t = t :=
  mapLines_of_fixed ((endsTrimmed_iff t).1 h)

section
variable {α : Type} {find : Finder α} {write : Text → α → Text} (he : EditsCode find write) {m : Mode} {t s : Text}

include he

theorem CodeEdited.endsLine (h : CodeEdited find write m t s) (hs : EndsLine s) : EndsLine t := by
  cases h with
  | nil => exact hs
  | keep => exact hs
  | hit hfind =>
    obtain ⟨hne, hwritten⟩ := he.written hfind
    obtain ⟨c, w, hw⟩ := List.exists_cons_of_ne_nil hne
    rw [hw] at hs hwritten
    obtain rfl : c = '\n' := by simpa [EndsLine] using hs
    exact absurd (hwritten _ List.mem_cons_self).2 (by decide)

/-- No white space is written, so no line gets any at its end. -/
theorem CodeEdited.endsTrimmed (h : CodeEdited find write m t s) (ht : EndsTrimmed t) : EndsTrimmed s := by
  induction h with
  | nil => trivial
  | keep c _ h ih => exact ⟨fun hs => ht.1 (h.endsLine he hs), ih ht.2⟩
  | @hit m a t s hfind _ ih =>
    have hwritten := (he.written hfind).2
    have hrest := ih ht.of_append
    generalize write m a = w at hwritten
    induction w with
    | nil => exact hrest
    | cons c w ihw =>
      obtain ⟨⟨-, hc⟩, hw⟩ := List.forall_mem_cons.1 hwritten
      refine ⟨fun _ hblank => ?_, ihw hw⟩
      rw [hc] at hblank
      cases hblank

end

theorem dropEmpty_of_mem {t l : Text} (h : l ∈ splitOn '\n' (dropEmptyStatements t)) : dropEmpty l = l := by
  rw [dropEmptyStatements_eq, splitOn_mapLines fun l hl hmem => hl (mem_dropEmpty hmem)] at h
  obtain ⟨k, -, rfl⟩ := List.mem_map.1 h
  exact dropEmpty_idem k

/-! ## Blank lines -/

/-- Not both lines are blank. -/
def NotBoth (k l : Text) : Prop := isBlankLine k = true → isBlankLine l = false

theorem isChain_squeezeBlank (open_ : Bool) (ls : List Text) : (squeezeBlank open_ ls).IsChain NotBoth
    ∧ (open_ = true → ∀ l ∈ (squeezeBlank open_ ls).head?, isBlankLine l = false) := by
  fun_induction squeezeBlank open_ ls with
  | case1 => exact ⟨.nil, by simp⟩
  | case2 l ls hblank ih => exact ih
  | case3 open_ l ls hblank hopen ih =>
    exact ⟨List.isChain_cons.2 ⟨fun k hk _ => ih.2 rfl k hk, ih.1⟩, fun h => absurd h hopen⟩
  | case4 open_ l ls hblank ih =>
    have hl : isBlankLine l = false := Bool.eq_false_iff.2 hblank
    exact ⟨List.isChain_cons.2 ⟨fun k _ hk => absurd hk hblank, ih.1⟩, by simpa using fun _ => hl⟩

theorem squeezeBlank_of_isChain {open_ : Bool} {ls : List Text} (h : ls.IsChain NotBoth)
    (hopen : open_ = true → ∀ l ∈ ls.head?, isBlankLine l = false) : squeezeBlank open_ ls = ls := by
  induction ls generalizing open_ with
  | nil => rfl
  | cons l ls ih =>
    obtain ⟨hhead, hrest⟩ := List.isChain_cons.1 h
    rw [squeezeBlank]
    split
    · rw [if_neg fun h => by simp [hopen h l rfl] at *, ih hrest fun _ k hk => hhead k hk ‹_›]
    · rw [ih hrest fun h => by cases h]

/-- The lines that stay and an empty one, or nothing. -/
theorem splitOn_collapseBlankLines (t : Text) :
    collapseBlankLines t = [] ∧ spacedLines t = []
      ∨ spacedLines t ≠ [] ∧ splitOn '\n' (collapseBlankLines t) = spacedLines t ++ [[]] := by
  rw [collapseBlankLines_eq]
  have hlines : ∀ l ∈ spacedLines t, '\n' ∉ l :=
    fun l hl => newline_not_mem_splitOn (mem_spacedLines hl)
  generalize spacedLines t = ls at hlines
  by_cases hne : ls = []
  · exact .inl ⟨by rw [hne, unlines_nil], hne⟩
  · refine .inr ⟨hne, ?_⟩
    have hjoin : unlines ls true = joinWith ['\n'] (ls ++ [[]]) := by
      rw [joinWith_concat_nil hne]
      simp [unlines, hne]
    rw [hjoin, splitOn_joinWith (by simp)]
    simpa [or_imp, forall_and] using hlines

theorem mem_splitOn_collapseBlankLines {t l : Text} (h : l ∈ splitOn '\n' (collapseBlankLines t)) :
    l ∈ splitOn '\n' t ∨ l = [] := by
  rcases splitOn_collapseBlankLines t with ⟨hnil, -⟩ | ⟨-, hlines⟩
  · rw [hnil] at h
    exact .inr (List.mem_singleton.1 h)
  · rw [hlines, List.mem_append, List.mem_singleton] at h
    exact h.imp_left mem_spacedLines

/-- The lines of a text are in order when blank lines are collapsed: not two of them are blank in a row, and neither the
    first nor the last is. -/
theorem spacedLines_inOrder {t : Text} (hne : spacedLines t ≠ []) : (spacedLines t ++ [[]]).IsChain NotBoth
    ∧ (∀ l ∈ (spacedLines t ++ [[]]).head?, isBlankLine l = false)
    ∧ ∀ l ∈ (spacedLines t).getLast?, isBlankLine l = false := by
  obtain ⟨hchain, hhead⟩ := isChain_squeezeBlank true (splitOn '\n' t)
  have hprefix : spacedLines t <+: squeezeBlank true (splitOn '\n' t) := List.rdropWhile_prefix isBlankLine _
  have hlast : ∀ l ∈ (spacedLines t).getLast?, isBlankLine l = false := by
    intro l hl
    obtain ⟨hne, rfl⟩ := List.mem_getLast?_eq_getLast hl
    exact Bool.eq_false_iff.2 (List.rdropWhile_last_not isBlankLine _ hne)
  refine ⟨?_, ?_, hlast⟩
  · have hspaced : (spacedLines t).IsChain NotBoth := List.IsChain.prefix hchain hprefix
    rw [List.isChain_append]
    refine ⟨hspaced, .singleton _, fun k hk l _ hblank => ?_⟩
    rw [hlast k hk] at hblank
    cases hblank
  · obtain ⟨l, ls, hl⟩ := List.exists_cons_of_ne_nil hne
    obtain ⟨rest, hrest⟩ := hprefix
    rw [hl] at hrest ⊢
    rw [← hrest] at hhead
    simpa using hhead rfl

theorem collapseBlankLines_idem (t : Text) : collapseBlankLines (collapseBlankLines t) = collapseBlankLines t := by
  rcases splitOn_collapseBlankLines t with ⟨hnil, -⟩ | ⟨hne, hlines⟩
  · rw [hnil]
    rfl
  · obtain ⟨hchain, hhead, -⟩ := spacedLines_inOrder hne
    have hsame : spacedLines (collapseBlankLines t) = spacedLines t := by
      rw [spacedLines, hlines, squeezeBlank_of_isChain hchain fun _ => hhead, List.rdropWhile_concat_pos _ _ _ rfl]
      exact List.rdropWhile_idempotent isBlankLine _
    rw [collapseBlankLines_eq, hsame, ← collapseBlankLines_eq]

/-! ## Tidy texts -/

/-- The lines of a text are trimmed, no two of them are blank in a row, the first is not blank, and the text is empty or
    ends with exactly one line end. -/
structure InOrder (t : Text) : Prop where
  trimmed : ∀ l ∈ splitOn '\n' t, trimEnd l = l
  opens : t ≠ [] → ∀ l ∈ (splitOn '\n' t).head?, isBlankLine l = false
  spaced : (splitOn '\n' t).IsChain NotBoth
  ends : t = [] ∨ ∃ u c, c ≠ '\n' ∧ t = u ++ [c, '\n']

theorem tidy_eq (t : Text) :
    tidy t = collapseBlankLines (dropEmptyStatements (nameUndefined (collapseCasts (stripLineEnds t)))) := rfl

theorem endsTrimmed_tidy (t : Text) : EndsTrimmed (tidy t) := by
  have hcasts : EndsTrimmed (collapseCasts (stripLineEnds t)) :=
    (codeEdited_mapCode editsCode_findCasts _).endsTrimmed editsCode_findCasts (endsTrimmed_stripLineEnds t)
  have htypes := (codeEdited_mapCode editsCode_undefinedType _).endsTrimmed editsCode_undefinedType hcasts
  rw [← nameUndefined_eq] at htypes
  have hstatements := (thinned_dropEmptyStatements _).endsTrimmed htypes
  rw [endsTrimmed_iff] at hstatements ⊢
  intro l hl
  rw [tidy_eq] at hl
  rcases mem_splitOn_collapseBlankLines hl with hl | rfl
  · exact hstatements l hl
  · rfl

theorem inCode_castApart_tidy (t : Text) : InCode CastApart .code (tidy t) := by
  have hstatements := (inCode_castApart_nameUndefined (inCode_castApart_collapseCasts (stripLineEnds t))).thinned
    castApart_of_thinned (thinned_dropEmptyStatements _)
  rw [tidy_eq]
  exact inCode_collapseBlankLines castApart_of_thinned (castApart_cons (by decide)) castApart_append_newline hstatements

theorem inCode_inferred_tidy (t : Text) : InCode Inferred .code (tidy t) := by
  have hkeep (m : Mode) (t s : Text) (h : Thinned m t s) (ht : Inferred t) : Inferred s := by
    refine Bool.eq_false_iff.2 fun hs => ?_
    rw [Inferred, startsWith_of_passes passes_thinned (List.all_eq_true.1 (by decide)) ⟨m, h⟩ hs] at ht
    cases ht
  have hend (t : Text) (ht : Inferred t) : Inferred (t ++ ['\n']) := by
    refine Bool.eq_false_iff.2 fun hs => ?_
    rw [Inferred, startsWith_of_passes passes_append_newline (List.all_eq_true.1 (by decide)) rfl hs] at ht
    cases ht
  have hstatements := (inCode_inferred_nameUndefined (collapseCasts (stripLineEnds t))).thinned hkeep
    (thinned_dropEmptyStatements _)
  rw [tidy_eq]
  exact inCode_collapseBlankLines hkeep (not_startsWith_cons (by decide) _) hend hstatements

theorem inOrder_collapseBlankLines {t : Text} (ht : EndsTrimmed (collapseBlankLines t)) :
    InOrder (collapseBlankLines t) where
  trimmed := (endsTrimmed_iff _).1 ht
  opens hne := by
    rcases splitOn_collapseBlankLines t with ⟨hnil, -⟩ | ⟨hlines, hsplit⟩
    · exact absurd hnil hne
    · rw [hsplit]
      exact (spacedLines_inOrder hlines).2.1
  spaced := by
    rcases splitOn_collapseBlankLines t with ⟨hnil, -⟩ | ⟨hlines, hsplit⟩
    · rw [hnil]
      exact .singleton _
    · rw [hsplit]
      exact (spacedLines_inOrder hlines).1
  ends := by
    rcases splitOn_collapseBlankLines t with ⟨hnil, -⟩ | ⟨hlines, -⟩
    · exact .inl hnil
    · -- The last line is not blank, so it has a last character, which is no line end.
      have hlast := (spacedLines_inOrder hlines).2.2
      have hline : ∀ l ∈ spacedLines t, '\n' ∉ l := fun l hl => newline_not_mem_splitOn (mem_spacedLines hl)
      rw [collapseBlankLines_eq]
      generalize spacedLines t = ls at *
      obtain ⟨ls, l, rfl⟩ := (List.eq_nil_or_concat ls).resolve_left hlines
      rcases List.eq_nil_or_concat l with rfl | ⟨k, c, rfl⟩
      · exact absurd (hlast [] (by simp)) (by decide)
      · refine .inr ⟨unlines ls true ++ k, c, ?_, ?_⟩
        · rintro rfl
          exact hline (k ++ ['\n']) (by simp) (by simp)
        · simp [unlines_terminated]

/-- What each edit of the catalogue leaves alone is tidy. -/
theorem tidy_of_fixed {t : Text} (hends : stripLineEnds t = t) (hcasts : collapseCasts t = t)
    (htypes : nameUndefined t = t) (hstatements : dropEmptyStatements t = t) (hblank : collapseBlankLines t = t) :
    (∀ e ∈ catalogue, e.apply t = t) ∧ tidy t = t := by
  constructor
  · intro e he
    simp only [catalogue, List.mem_cons, List.not_mem_nil, or_false] at he
    rcases he with rfl | rfl | rfl | rfl | rfl
    · exact hends
    · exact hcasts
    · exact htypes
    · exact hstatements
    · exact hblank
  · rw [tidy_eq, hends, hcasts, htypes, hstatements, hblank]

/-- **A tidy text is left alone by each edit of the catalogue**, so tidying it again changes nothing, and its lines are in
    order. -/
theorem tidy_settles (t : Text) :
    (∀ e ∈ catalogue, e.apply (tidy t) = tidy t) ∧ tidy (tidy t) = tidy t ∧ InOrder (tidy t) := by
  have hstatements : dropEmptyStatements (tidy t) = tidy t := by
    refine mapLines_of_fixed fun l hl => ?_
    rw [tidy_eq] at hl
    rcases mem_splitOn_collapseBlankLines hl with hl | rfl
    · exact dropEmpty_of_mem hl
    · rfl
  have hblank : collapseBlankLines (tidy t) = tidy t := by
    rw [tidy_eq]
    exact collapseBlankLines_idem _
  have horder : InOrder (tidy t) := by
    have hends := endsTrimmed_tidy t
    rw [tidy_eq] at hends ⊢
    exact inOrder_collapseBlankLines hends
  have hfixed := tidy_of_fixed (stripLineEnds_of_endsTrimmed (endsTrimmed_tidy t))
    (collapseCasts_of_inCode (inCode_castApart_tidy t)) (nameUndefined_of_inCode (inCode_inferred_tidy t)) hstatements hblank
  exact ⟨hfixed.1, hfixed.2, horder⟩

end JavaMend.Java
