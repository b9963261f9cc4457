import JavaMend.Java.Builtin
import JavaMend.Java.Comments
import JavaMend.Java.Labels
import JavaMend.Java.Tidy
import JavaMend.Proofs.Java.MarkedImports
import JavaMend.Proofs.Lines

/-!
# `Proofs.Java.MarkedEdits` — edits add no marks

None of the edits of a normalisation adds a mark, and some take one away with everything they do: a comment of a
decompiler holds a colon, and a renamed class had a dot behind a `c` before its simple name.

## Contents
- **Line terminators.** `tally_toLF`, `toLF_of_tally_eq_zero`.
- **Comments.** `Mark.IsLoose`, `commentPrice`; `tally_stripSynthetic`.
- **Cosmetic edits.** `tally_tidy_le`.
- **Labels.** `tally_tightenLabels_le`.
- **Renames.** `Mark.allows`, `renamePrice`; `tally_renameClasses`.
-/

namespace JavaMend.Java

open JavaMend Text

variable {m : Mark} {k : Nat}

/-! ## Line terminators -/

theorem tally_carriageReturn_eq_zero {before : Option Char} {t : Text} :
    tally .carriageReturn before t = 0 ↔ '\r' ∉ t := by
  induction t generalizing before with
  | nil => simp
  | cons c t ih =>
    rw [tally_cons, Nat.add_eq_zero_iff, ih, List.mem_cons, not_or, Mark.marks]
    by_cases hc : c = '\r'
    · simp [hc]
    · simp [hc, Ne.symm hc]

/-- No carriage return stays. -/
theorem tally_toLF (t : Text) : tally .carriageReturn none (toLF t) = 0 :=
  tally_carriageReturn_eq_zero.2 (not_mem_toLF t)

theorem toLF_of_tally_eq_zero {t : Text} (h : tally .carriageReturn none t = 0) : toLF t = t :=
  toLF_of_not_mem (tally_carriageReturn_eq_zero.1 h)

/-! ## Comments -/

/-- What counts does not depend on what stands before. -/
def Mark.IsLoose (m : Mark) : Prop := ∀ before c, m.marks before c = m.marks none c

theorem Mark.isLoose_carriageReturn : Mark.carriageReturn.IsLoose := fun _ _ => rfl

theorem Mark.isLoose_colon : Mark.colon.IsLoose := fun _ _ => rfl

theorem tally_of_isLoose (hm : m.IsLoose) (before : Option Char) (t : Text) : tally m before t = tally m none t := by
  cases t with
  | nil => rfl
  | cons c t => rw [tally_cons, tally_cons, hm before c]

/-- What a comment of a decompiler takes away. -/
def commentPrice : Mark → Nat
  | .colon => 1
  | _      => 0

theorem tally_colon_pos {before : Option Char} {t : Text} (h : ':' ∈ t) : 0 < tally .colon before t := by
  induction t generalizing before with
  | nil => cases h
  | cons c t ih =>
    rw [tally_cons]
    rcases List.mem_cons.1 h with hc | h
    · rw [← hc]
      exact Nat.add_pos_left Nat.zero_lt_one _
    · exact Nat.add_pos_right _ (ih h)

theorem mem_of_contains {needle t : Text} {c : Char} (h : contains needle t = true) (hc : c ∈ needle) : c ∈ t := by
  induction t with
  | nil =>
    rw [contains, List.isEmpty_iff] at h
    exact h ▸ hc
  | cons d t ih =>
    rw [contains, Bool.or_eq_true] at h
    rcases h with h | h
    · obtain ⟨rest, hrest⟩ := Option.isSome_iff_exists.1 h
      rw [dropPrefix?_eq_some.1 hrest]
      exact List.mem_append_left rest hc
    · exact List.mem_cons_of_mem d (ih h)

theorem commentPrice_le {s : Segment} (h : isSynthetic s = true) : commentPrice m ≤ tally m none s.text := by
  cases m with
  | colon =>
    obtain ⟨marker, hmarker, hin⟩ := List.any_eq_true.1 (Bool.and_eq_true_iff.1 h).2
    have hcolon : ':' ∈ marker := by
      simp only [markers, List.mem_cons, List.not_mem_nil, or_false] at hmarker
      rcases hmarker with rfl | rfl | rfl
      · decide
      · decide
      · decide
    exact tally_colon_pos (mem_of_contains hin hcolon)
  | _ => exact Nat.zero_le _

/-- The comments that go take away what they held. -/
theorem tally_withoutSynthetic_le (hm : m.IsLoose) (line : Nat) (ss : List Segment) :
    tally m none (withoutSynthetic line ss).1 + (if (withoutSynthetic line ss).2.isEmpty then 0 else commentPrice m) ≤
      tally m none (source ss) := by
  induction ss generalizing line with
  | nil => exact Nat.le_refl _
  | cons s ss ih =>
    have hsource : tally m none (source (s :: ss)) = tally m none s.text + tally m none (source ss) := by
      rw [source, List.flatMap_cons, tally_append, tally_of_isLoose hm (endOf none s.text), ← source]
    rw [hsource]
    unfold withoutSynthetic
    split
    · rename_i hs
      have hprice := commentPrice_le (m := m) hs
      have ih := ih line
      simp only [List.isEmpty_cons, Bool.false_eq_true, if_false]
      omega
    · have ih := ih (line + s.text.count '\n')
      simp only [tally_append, tally_of_isLoose hm (endOf none s.text)]
      omega

theorem weight_filterMap_le {α : Type} {f : α → Option Text} {g : α → Text}
    (h : ∀ a l, f a = some l → tally m none l ≤ tally m none (g a)) (as : List α) :
    weight m (as.filterMap f) ≤ weight m (as.map g) := by
  induction as with
  | nil => exact Nat.le_refl 0
  | cons a as ih =>
    rw [List.map_cons, weight_cons]
    cases hf : f a with
    | none =>
      rw [List.filterMap_cons_none hf]
      omega
    | some l =>
      have hl := h a l hf
      rw [List.filterMap_cons_some hf, weight_cons]
      omega

theorem weight_keptLines_le (touched : List Nat) (ls : List Text) : weight m (keptLines touched ls) ≤ weight m ls := by
  have h : weight m (keptLines touched ls) ≤ weight m (ls.zipIdx.map Prod.fst) := by
    refine weight_filterMap_le ?_ ls.zipIdx
    rintro ⟨l, i⟩ kept heq
    simp only at heq
    split at heq
    · split at heq
      · cases heq
      · cases heq
        exact tally_prefix_le none (prefix_trimEnd l)
    · cases heq
      exact Nat.le_refl _
  rwa [List.zipIdx_map_fst] at h

theorem isSynthetic_eq_false {line : Nat} {ss : List Segment} (h : (withoutSynthetic line ss).2.isEmpty = true) :
    ∀ s ∈ ss, isSynthetic s = false := by
  induction ss generalizing line with
  | nil => exact fun s hs => absurd hs List.not_mem_nil
  | cons s ss ih =>
    unfold withoutSynthetic at h
    split at h
    · cases h
    · rename_i hs
      exact List.forall_mem_cons.2 ⟨Bool.eq_false_iff.2 hs, ih h⟩

/-- **Removing comments adds no marks**, and takes some away if there are any to remove. -/
theorem tally_stripSynthetic (hm : m.IsLoose) (t : Text) :
    (∀ s ∈ segments t, isSynthetic s = false) ∨ tally m none (stripSynthetic t) + commentPrice m ≤ tally m none t := by
  have hstripped := tally_withoutSynthetic_le hm 0 (segments t)
  rw [source_segments] at hstripped
  by_cases hnone : (withoutSynthetic 0 (segments t)).2.isEmpty = true
  · exact .inl (isSynthetic_eq_false hnone)
  · refine .inr ?_
    have hkept : tally m none (joinWith ['\n'] (keptLines (withoutSynthetic 0 (segments t)).2
        (splitOn '\n' (withoutSynthetic 0 (segments t)).1))) ≤ tally m none (withoutSynthetic 0 (segments t)).1 := by
      rw [tally_joinWith_newline, ← weight_splitOn (withoutSynthetic 0 (segments t)).1]
      exact weight_keptLines_le _ _
    have hend (before : Option Char) : tally m before ['\n'] = 0 := tally_newline before []
    unfold stripSynthetic
    rw [if_neg hnone] at hstripped
    simp only [hnone, Bool.false_eq_true, if_false]
    split
    · rw [tally_append, hend]
      omega
    · omega

/-! ## Cosmetic edits -/

theorem tally_mapLines_le {f : Text → Text} (h : ∀ l, tally m none (f l) ≤ tally m none l) (t : Text) :
    tally m none (mapLines f t) ≤ tally m none t := by
  rw [mapLines, tally_joinWith_newline, ← weight_splitOn t]
  induction splitOn '\n' t with
  | nil => exact Nat.le_refl 0
  | cons l ls ih => exact Nat.add_le_add (h l) ih

/-- A text of plain characters can stand for one that ends as it does. -/
theorem sheds_of_plain {s t : Text} {d : Char} (h : (t ++ [d]).all Mark.isPlain = true) :
    Sheds m 0 (s ++ [d]) (t ++ [d]) := by
  refine Sheds.replace (fun before => ?_) fun before c hc => ?_
  · rw [tally_of_plain before h]
    exact Nat.zero_le _
  · rwa [endOf_concat]

theorem cast?_spec {t type rest : Text} (h : cast? t = some (type, rest)) :
    type ∈ primitives ∧ t = '(' :: type ++ [')'] ++ rest := by
  obtain ⟨u, hu, hcast⟩ := List.exists_of_findSome?_eq_some h
  obtain ⟨r, hr, heq⟩ := Option.map_eq_some_iff.1 hcast
  cases heq
  exact ⟨hu, dropPrefix?_eq_some.1 hr⟩

/-- The text of more casts stands at the start and ends with the last cast, if there is one. -/
theorem moreCasts_spec (t : Text) : (moreCasts t).1 <+: t ∧ (∀ type ∈ (moreCasts t).2, type ∈ primitives)
    ∧ ((moreCasts t).1 = [] ∨ ∃ s, (moreCasts t).1 = s ++ [')']) := by
  fun_induction moreCasts t with
  | case1 t h => exact ⟨List.nil_prefix, by simp, .inl rfl⟩
  | case2 t gap type rest h more ih =>
    obtain ⟨hpre, htypes, hend⟩ := ih
    obtain ⟨htype, hcast⟩ := cast?_spec h
    refine ⟨?_, List.forall_mem_cons.2 ⟨htype, htypes⟩, .inr ?_⟩
    · conv => rhs; rw [← List.takeWhile_append_dropWhile (p := isBlank) (l := t), hcast]
      simpa [gap] using hpre
    · rcases hend with hnil | ⟨s, hs⟩
      · exact ⟨gap ++ '(' :: type, by rw [hnil]; simp⟩
      · exact ⟨gap ++ '(' :: type ++ [')'] ++ s, by rw [hs]; simp⟩

/-- A row of casts ends with a bracket. -/
theorem findCasts_spec {before : Option Char} {t found : Text} {types : List Text}
    (h : findCasts before t = some (found, types)) :
    found <+: t ∧ (∃ s, found = s ++ [')']) ∧ types ≠ [] ∧ ∀ type ∈ types, type ∈ primitives := by
  simp only [findCasts, Option.bind_eq_bind, Option.bind_eq_some_iff] at h
  obtain ⟨⟨type, rest⟩, hcast, h⟩ := h
  obtain ⟨htype, rfl⟩ := cast?_spec hcast
  obtain ⟨hpre, htypes, hend⟩ := moreCasts_spec rest
  simp only at h
  split at h
  · cases h
  · rename_i more types' hmore
    simp only [hmore] at hpre htypes hend
    cases h
    refine ⟨?_, ?_, by simp, List.forall_mem_cons.2 ⟨htype, htypes⟩⟩
    · exact List.prefix_append_right_inj _ |>.2 hpre
    · rcases hend with hnil | ⟨s, hs⟩
      · exact ⟨'(' :: type, by rw [hnil]; simp⟩
      · exact ⟨'(' :: type ++ [')'] ++ s, by rw [hs]; simp⟩

theorem faithful_findCasts : findCasts.Faithful := by
  intro before t found types h
  obtain ⟨hpre, ⟨s, rfl⟩, -⟩ := findCasts_spec h
  exact ⟨by simp, hpre⟩

theorem dedupAdjacent_spec {ts : List Text} (h : ts ≠ []) : dedupAdjacent ts ≠ [] ∧ ∀ t ∈ dedupAdjacent ts, t ∈ ts := by
  fun_induction dedupAdjacent ts with
  | case1 => exact absurd rfl h
  | case2 t => exact ⟨by simp, fun u hu => hu⟩
  | case3 t r ih =>
    obtain ⟨hne, hsub⟩ := ih (by simp)
    exact ⟨hne, fun u hu => List.mem_cons_of_mem t (hsub u hu)⟩
  | case4 t u r hne ih =>
    obtain ⟨-, hsub⟩ := ih (by simp)
    refine ⟨by simp, fun v hv => ?_⟩
    rcases List.mem_cons.1 hv with rfl | hv
    · exact List.mem_cons_self
    · exact List.mem_cons_of_mem t (hsub v hv)

theorem sheds_casts {s : Text} {types : List Text} (hne : types ≠ []) (h : ∀ type ∈ types, type ∈ primitives) :
    Sheds m 0 (s ++ [')']) (types.flatMap fun type => '(' :: type ++ [')']) := by
  have hprimitives : (primitives.all fun type => type.all Mark.isPlain) = true := by decide
  have hplain : (types.flatMap fun type => '(' :: type ++ [')']).all Mark.isPlain = true := by
    refine List.all_eq_true.2 fun c hc => ?_
    obtain ⟨type, htype, hc⟩ := List.mem_flatMap.1 hc
    simp only [List.cons_append, List.mem_cons, List.mem_append, List.not_mem_nil, or_false] at hc
    rcases hc with rfl | hc | rfl
    · decide
    · exact List.all_eq_true.1 (List.all_eq_true.1 hprimitives type (h type htype)) c hc
    · decide
  obtain ⟨init, last, rfl⟩ := (List.eq_nil_or_concat types).resolve_left hne
  have hlast : (init ++ [last]).flatMap (fun type => '(' :: type ++ [')']) =
      init.flatMap (fun type => '(' :: type ++ [')']) ++ '(' :: last ++ [')'] := by simp
  rw [List.concat_eq_append, hlast] at hplain ⊢
  exact sheds_of_plain hplain

theorem tally_collapseCasts_le (t : Text) : tally m none (collapseCasts t) ≤ tally m none t := by
  refine (Pays.mapCode (k := 0) (fun code => ?_) t).sheds.le none
  refine Pays.substitute faithful_findCasts (fun before t found types h => .inr ?_) code
  obtain ⟨-, ⟨s, rfl⟩, hne, htypes⟩ := findCasts_spec h
  obtain ⟨hdedup, hsub⟩ := dedupAdjacent_spec hne
  exact sheds_casts hdedup fun type htype => htypes type (hsub type htype)

theorem faithful_findWord {word : Text} (h : word ≠ []) : (findWord word).Faithful := by
  intro before t found a hfind
  unfold findWord at hfind
  split at hfind
  · rename_i hstart
    cases hfind
    obtain ⟨rest, hrest⟩ := Option.isSome_iff_exists.1 hstart
    exact ⟨h, rest, (dropPrefix?_eq_some.1 hrest).symm⟩
  · cases hfind

theorem tally_nameUndefined_le (t : Text) : tally m none (nameUndefined t) ≤ tally m none t := by
  refine (Pays.mapCode (k := 0) (fun code => ?_) t).sheds.le none
  have hword : text "<undefinedtype>" ≠ [] := by decide
  unfold replaceAll
  rw [if_neg (by decide)]
  refine Pays.substitute (faithful_findWord hword) (fun before t found a _ => .inr ?_) code
  refine Sheds.replace (t := text "Objec") (d := 't') (fun before => ?_) fun before c hc => ?_
  · rw [tally_of_plain before (by decide)]
    exact Nat.zero_le _
  · exact m.marks_of_inClassName (by decide) (by decide) hc _

theorem isPlain_of_isGap {c : Char} (h : isGap c = true) : Mark.isPlain c = true := by
  simp only [isGap, Bool.or_eq_true, beq_iff_eq] at h
  rcases h with rfl | rfl
  · decide
  · decide

theorem tally_collapseSemicolons_le (line : Text) : tally m none (collapseSemicolons line) ≤ tally m none line := by
  have hgaps (u : Text) : (u.takeWhile isGap).all Mark.isPlain = true :=
    List.all_eq_true.2 fun c hc => isPlain_of_isGap (List.all_eq_true.1 List.all_takeWhile c hc)
  have hhead := tally_prefix_le (m := m) none (List.rdropWhile_prefix (fun c => isGap c || c == ';') line)
  unfold collapseSemicolons
  simp only
  split
  · have hend (u v : Text) (before : Option Char) :
        tally m before (u.takeWhile isGap ++ ';' :: (v.takeWhile isGap).reverse) = 0 := by
      refine tally_of_plain before ?_
      rw [List.all_append, List.all_cons, List.all_reverse, hgaps, hgaps]
      decide
    rw [List.append_assoc, tally_append, hend]
    exact hhead
  · exact Nat.le_refl _

theorem tally_dropEmptyStatements_le (t : Text) : tally m none (dropEmptyStatements t) ≤ tally m none t := by
  refine tally_mapLines_le (fun line => ?_) t
  split
  · exact tally_collapseSemicolons_le line
  · exact Nat.le_refl _

theorem squeezeBlank_sublist (open_ : Bool) (ls : List Text) : (squeezeBlank open_ ls).Sublist ls := by
  fun_induction squeezeBlank open_ ls with
  | case1 => exact .slnil
  | case2 l ls _ ih => exact ih.cons l
  | case3 open_ l ls _ _ ih => exact ih.cons_cons l
  | case4 open_ l ls _ ih => exact ih.cons_cons l

theorem tally_collapseBlankLines_le (t : Text) : tally m none (collapseBlankLines t) ≤ tally m none t := by
  have hkept := (List.rdropWhile_prefix isBlankLine (squeezeBlank true (splitOn '\n' t))).sublist.trans
    (squeezeBlank_sublist true (splitOn '\n' t))
  unfold collapseBlankLines
  simp only
  split
  · exact Nat.zero_le _
  · rw [tally_append, show ∀ before, tally m before ['\n'] = 0 from fun before => tally_newline before [],
      tally_joinWith_newline, ← weight_splitOn t]
    exact weight_le_of_sublist hkept

/-- **Tidying adds no marks.** -/
theorem tally_tidy_le (t : Text) : tally m none (tidy t) ≤ tally m none t := by
  have hends (t : Text) : tally m none (stripLineEnds t) ≤ tally m none t :=
    tally_mapLines_le (fun l => tally_prefix_le none (prefix_trimEnd l)) t
  calc tally m none (tidy t)
      ≤ tally m none (dropEmptyStatements (nameUndefined (collapseCasts (stripLineEnds t)))) :=
        tally_collapseBlankLines_le _
    _ ≤ tally m none (nameUndefined (collapseCasts (stripLineEnds t))) := tally_dropEmptyStatements_le _
    _ ≤ tally m none (collapseCasts (stripLineEnds t)) := tally_nameUndefined_le _
    _ ≤ tally m none (stripLineEnds t) := tally_collapseCasts_le _
    _ ≤ tally m none t := hends t

/-! ## Labels -/

theorem weight_spaceLines_le (afterLabel : Bool) (blanks ls : List Text) :
    weight m (spaceLines afterLabel blanks ls) ≤ weight m blanks + weight m ls := by
  induction ls generalizing afterLabel blanks with
  | nil =>
    unfold spaceLines
    split
    · exact Nat.zero_le _
    · exact Nat.le_refl _
  | cons l ls ih =>
    unfold spaceLines
    split
    · have h := ih afterLabel (blanks ++ [l])
      rw [weight_append, weight_cons, weight_nil] at h
      rw [weight_cons]
      omega
    · have h := ih (isLabel l) []
      have hkept : weight m (if afterLabel || isLabel l then [] else blanks) ≤ weight m blanks := by
        split
        · exact Nat.zero_le _
        · exact Nat.le_refl _
      simp only [weight_append, weight_cons, weight_nil] at h ⊢
      omega

/-- **Tightening labels adds no marks.** -/
theorem tally_tightenLabels_le (t : Text) : tally m none (tightenLabels t) ≤ tally m none t := by
  have hend (before : Option Char) (b : Bool) : tally m before (if b then ['\n'] else []) = 0 := by
    cases b with
    | false => rfl
    | true => exact tally_newline before []
  unfold tightenLabels unlines
  rw [tally_append, hend, tally_joinWith_newline]
  have hspaced := weight_spaceLines_le (m := m) false [] (lines t)
  have hlines := weight_lines_le (m := m) t
  rw [weight_nil] at hspaced
  omega

/-! ## Renames -/

/-- The first text can give way to the second, which has fewer marks by `k` at least: both open with a plain character
    and end alike, so it does not matter where they stand. -/
def Mark.allows (m : Mark) (k : Nat) (s t : Text) : Bool :=
  s.head?.any isPlain && t.head?.any isPlain && s.getLast? == t.getLast? && decide (tally m none t + k ≤ tally m none s)

theorem tally_of_head? (before : Option Char) {t : Text} (h : t.head?.any Mark.isPlain = true) :
    tally m before t = tally m none t := by
  cases t with
  | nil => cases h
  | cons c t => rw [tally_cons_plain before h, tally_cons_plain none h]

theorem sheds_of_allows {s t : Text} (h : m.allows k s t = true) : Sheds m k s t := by
  simp only [Mark.allows, Bool.and_eq_true, beq_iff_eq, decide_eq_true_eq] at h
  obtain ⟨⟨⟨hs, ht⟩, hlast⟩, htally⟩ := h
  have hne : t ≠ [] := by
    rintro rfl
    cases ht
  obtain ⟨t', d, rfl⟩ := (List.eq_nil_or_concat t).resolve_left hne
  rw [List.concat_eq_append, List.getLast?_concat] at hlast
  obtain ⟨s', rfl⟩ := List.getLast?_eq_some_iff.1 hlast
  rw [List.concat_eq_append] at ht htally ⊢
  refine Sheds.replace (fun before => ?_) fun before c hc => ?_
  · rwa [tally_of_head? before ht, tally_of_head? before hs]
  · rwa [endOf_concat]

theorem findWhole_spec {word t found : Text} {before : Option Char} {free : Bool}
    (h : findWhole word before t = some (found, free)) : found = word ∧ word <+: t := by
  simp only [findWhole, Option.bind_eq_bind, Option.bind_eq_some_iff, Option.pure_def, Option.some.injEq,
    Prod.mk.injEq] at h
  obtain ⟨rest, hrest, rfl, -⟩ := h
  exact ⟨rfl, rest, (dropPrefix?_eq_some.1 hrest).symm⟩

theorem pays_replaceWhole {word new : Text} (hne : word ≠ []) (h : Sheds m k word new) (t : Text) :
    Pays m k t (replaceWhole word new t) := by
  unfold replaceWhole
  rw [if_neg (by simpa using hne)]
  refine Pays.substitute ?_ (fun before t found free hfind => ?_) t
  · intro before t found free hfind
    obtain ⟨rfl, hpre⟩ := findWhole_spec hfind
    exact ⟨hne, hpre⟩
  · obtain ⟨rfl, -⟩ := findWhole_spec hfind
    split
    · exact .inr h
    · exact .refl m k found

theorem mem_insertByLength {pair other : Text × Text} {pairs : List (Text × Text)} :
    other ∈ insertByLength pair pairs ↔ other = pair ∨ other ∈ pairs := by
  induction pairs with
  | nil => simp [insertByLength]
  | cons p ps ih =>
    unfold insertByLength
    split
    · simp
    · rw [List.mem_cons, List.mem_cons, ih, or_left_comm]

theorem mem_order {table : RenameTable} {pair : Text × Text} : pair ∈ order table ↔ pair ∈ table := by
  induction table with
  | nil => simp [order]
  | cons p ps ih => rw [order, List.foldr_cons, mem_insertByLength, List.mem_cons, ← ih, order]

/-- What replacing each name of a table preserves, renaming preserves. -/
theorem renameCode_induction {table : RenameTable} {motive : Text → Prop} {code : Text}
    (step : ∀ pair ∈ table, ∀ t, motive t → motive (replaceWhole pair.1 pair.2 t)) (start : motive code) :
    motive (renameCode table code) :=
  List.foldlRecOn (order table) _ start fun t ht pair hpair => step pair (mem_order.1 hpair) t ht

theorem pays_renameCode {table : RenameTable} (h : ∀ pair ∈ table, pair.1 ≠ [] ∧ Sheds m k pair.1 pair.2) (code : Text) :
    Pays m k code (renameCode table code) := by
  refine renameCode_induction (fun pair hpair t ht => ?_) (.refl m k code)
  obtain ⟨hne, hsheds⟩ := h pair hpair
  exact ht.trans (pays_replaceWhole hne hsheds t)

/-- What a renamed class takes away. -/
def renamePrice : Mark → Nat
  | .source => 1
  | _       => 0

theorem builtinRenames_spec (m : Mark) :
    ∀ pair ∈ builtinRenames, pair.1 ≠ [] ∧ Sheds m (renamePrice m) pair.1 pair.2 := by
  have hne : (builtinRenames.all fun pair => !pair.1.isEmpty) = true := by decide +kernel
  have hallows : (builtinRenames.all fun pair =>
      Mark.all.all fun m => m.allows (renamePrice m) pair.1 pair.2) = true := by decide +kernel
  intro pair hpair
  have hmarks := List.all_eq_true.1 (List.all_eq_true.1 hallows pair hpair) m m.mem_all
  exact ⟨by simpa using List.all_eq_true.1 hne pair hpair, sheds_of_allows hmarks⟩

/-- **Renaming classes adds no marks**, and takes some away if a name is replaced. -/
theorem tally_renameClasses (t : Text) :
    mapCode (renameCode builtinRenames) t = t
      ∨ tally m none (renameClasses builtinRenames t) + renamePrice m ≤ tally m none t := by
  rcases Pays.mapCode (pays_renameCode (builtinRenames_spec m)) t with hsame | hsheds
  · exact .inl hsame
  · by_cases hsame : mapCode (renameCode builtinRenames) t = t
    · exact .inl hsame
    · have hrenamed := hsheds.le none
      have himports := tally_fixImports_le (m := m) (mapCode (renameCode builtinRenames) t)
      have hresult : renameClasses builtinRenames t = fixImports (mapCode (renameCode builtinRenames) t) := if_neg hsame
      rw [hresult]
      exact .inr (by omega)

end JavaMend.Java
