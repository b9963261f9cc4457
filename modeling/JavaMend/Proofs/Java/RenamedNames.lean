import JavaMend.Java.Builtin
import JavaMend.Proofs.Java.MarkedEdits
import JavaMend.Proofs.Java.RunMeasure

/-!
# `Proofs.Java.RenamedNames` — renaming what was renamed

A rename table may not map a name to another of its names, so that renaming does not depend on how often it is done.
That is not enough: the target can go on from a name behind a dot, and then the name is found in it again. If no target
meets a name that has had its turn, no name is left in the code that was renamed. The repair of imports then writes no
name, but it can move the marks of a comment, so a name that stands in a comment or a literal can become code.

## Contents
- **Names.** `isDotted`, `heads`, `meets`.
- **Tables.** `named`, `RenameTable.Apart`; `not_renamedOnce_extended`.
- **Words.** `findWhole_free`, `findWhole_changed`, `editsStarts_findWhole`; `starts_replaceWhole_le`.
- **Code.** `starts_renameCode`, `renameCode_of_starts_eq_zero`.
- **Texts.** `namesIn`; `namesIn_mapCode_lt`, `mapCode_renameCode_eq_iff`.
- **Renaming twice.** `renamedOnce_iff`.
-/

namespace JavaMend.Java

open JavaMend Text

/-! ## Names -/

/-- A Java identifier. -/
def isIdentifier (t : Text) : Bool := t.head?.any (fun c => isLetter c || c == '_' || c == '$') && t.all isIdentChar

/-- Identifiers with dots between them. -/
def isDotted (t : Text) : Bool := (splitOn '.' t).all isIdentifier

/-- The name stands at the start of a text as a whole. -/
def heads (name t : Text) : Bool := (dropPrefix? name t).any fun rest => !rest.head?.any isIdentChar

/-- One of the names opens with the other. -/
def meets (a b : Text) : Bool := heads a b || heads b a

theorem heads_iff {name t : Text} :
    heads name t = true ↔ ∃ rest, t = name ++ rest ∧ rest.head?.any isIdentChar = false := by
  simp [heads, Option.any_eq_true, dropPrefix?_eq_some]

/-- A dotted name is a run of its own. -/
theorem isDotted_spec {name : Text} (h : isDotted name = true) : name ≠ [] ∧ ∀ c ∈ name, joinsName c = true := by
  have hparts := List.all_eq_true.1 h
  constructor
  · rintro rfl
    exact absurd (hparts [] (by simp [splitOn])) (by simp [isIdentifier])
  · intro c hc
    rw [← joinWith_splitOn '.' name] at hc
    rcases mem_joinWith hc with hdot | ⟨part, hpart, hc⟩
    · simp [joinsName, List.mem_singleton.1 hdot]
    · have hident := List.all_eq_true.1 (Bool.and_eq_true_iff.1 (hparts part hpart)).2 c hc
      simp [joinsName, hident]

/-- Names that head one text meet. -/
theorem meets_of_heads {a b t : Text} (ha : heads a t = true) (hb : heads b t = true) : meets a b = true := by
  obtain ⟨r, rfl, hr⟩ := heads_iff.1 ha
  obtain ⟨s, hs, hs'⟩ := heads_iff.1 hb
  rw [meets, Bool.or_eq_true, heads_iff, heads_iff]
  -- The longer name is the shorter one with `x` behind it, and `x` opens as what is behind the shorter one in the text.
  rcases List.append_eq_append_iff.1 hs with ⟨x, rfl, hx⟩ | ⟨x, rfl, hx⟩
  · refine .inl ⟨x, rfl, ?_⟩
    cases x with
    | nil => rfl
    | cons c x => simpa [hx] using hr
  · refine .inr ⟨x, rfl, ?_⟩
    cases x with
    | nil => rfl
    | cons c x => simpa [hx] using hs'

theorem head?_runOf (t : Text) : (runOf t).head?.any isIdentChar = t.head?.any isIdentChar := by
  cases t with
  | nil => rfl
  | cons c t =>
    cases hc : joinsName c with
    | true => simp [runOf_cons hc]
    | false =>
      have hident : isIdentChar c = false := (Bool.or_eq_false_iff.1 hc).1
      simp [runOf_cons_gap hc, hident]

/-- Whether a name heads a text is seen in its first run. -/
theorem heads_runOf {name : Text} (h : ∀ c ∈ name, joinsName c = true) (t : Text) :
    heads name (runOf t) = heads name t := by
  rw [Bool.eq_iff_iff, heads_iff, heads_iff]
  constructor
  · rintro ⟨rest, hrest, hfree⟩
    have hpre : runOf t <+: t := List.takeWhile_prefix joinsName
    rw [hrest] at hpre
    obtain ⟨u, hu⟩ := (List.prefix_append name rest).trans hpre
    rw [← hu, runOf_append_run h, List.append_cancel_left_eq] at hrest
    exact ⟨u, hu.symm, by rw [← head?_runOf, hrest, hfree]⟩
  · rintro ⟨rest, rfl, hfree⟩
    exact ⟨runOf rest, runOf_append_run h rest, by rw [head?_runOf, hfree]⟩

/-! ## Tables -/

/-- One of the names heads the run. -/
def named (pairs : List (Text × Text)) (run : Text) : Bool := pairs.any fun pair => heads pair.1 run

/-- The words that open a name which repair can write: those of imports and the root packages. -/
def openingWords : List Text := text "import" :: rootPackages

/-- **A table whose names and targets stand apart**: a target meets neither its own name nor one that is replaced before
    it, and no name can be written by a repair of imports. -/
structure RenameTable.Apart (table : RenameTable) : Prop where
  dotted : ∀ pair ∈ table, isDotted pair.1 = true ∧ isDotted pair.2 = true
  own : ∀ pair ∈ table, meets pair.1 pair.2 = false
  earlier : (order table).Pairwise fun first second => meets first.1 second.2 = false
  lower : ∀ pair ∈ table, pair.1.head?.any isAsciiUpper = false
  opening : ∀ pair ∈ table, ∀ word ∈ openingWords, heads word pair.1 = false

/-- Renaming a text twice is renaming it once. -/
def RenamedOnce (table : RenameTable) (t : Text) : Prop :=
  renameClasses table (renameClasses table t) = renameClasses table t

/-- A target that goes on from its name behind a dot is renamed again, and the table is accepted. -/
theorem not_renamedOnce_extended :
    ¬ ∀ table : RenameTable, table.fault? = none →
      (∀ pair ∈ table, isDotted pair.1 = true ∧ isDotted pair.2 = true) → ∀ t, RenamedOnce table t := by
  intro h
  have hextended : ¬ RenamedOnce [(text "a.B", text "a.B.C")] (text "a.B x;\n") := by
    unfold RenamedOnce
    decide +kernel
  exact hextended (h [(text "a.B", text "a.B.C")] (by decide +kernel) (by decide +kernel) _)

/-! ## Words -/

/-- A word is found free where it heads a text and nothing joins it on the left. -/
theorem findWhole_free {word t found : Text} {before : Option Char} {free : Bool}
    (h : findWhole word before t = some (found, free)) : free = (!before.any joinsName && heads word t) := by
  simp only [findWhole, Option.bind_eq_bind, Option.bind_eq_some_iff, Option.pure_def, Option.some.injEq,
    Prod.mk.injEq] at h
  obtain ⟨rest, hrest, -, rfl⟩ := h
  unfold heads
  rw [hrest]
  rfl

theorem findWhole_of_heads {word t : Text} {before : Option Char} (hgap : before.any joinsName = false)
    (h : heads word t = true) : findWhole word before t = some (word, true) := by
  obtain ⟨rest, rfl, hrest⟩ := heads_iff.1 h
  have hdrop : dropPrefix? word (word ++ rest) = some rest := dropPrefix?_eq_some.2 rfl
  have hfree : (before.any fun c => isIdentChar c || c == '.') = false := hgap
  simp [findWhole, hdrop, hfree, hrest]

/-- What a find of a word gives way to. -/
def replaced (new found : Text) (free : Bool) : Text := if free then new else found

/-- Only a word that is found free gives way to something else, and then it heads what is there. -/
theorem findWhole_changed {word new found rest : Text} {before : Option Char} {free : Bool}
    (h : findWhole word before (found ++ rest) = some (found, free)) (hchanged : replaced new found free ≠ found) :
    found = word ∧ free = true ∧ heads word (word ++ rest) = true := by
  obtain ⟨rfl, -⟩ := findWhole_spec h
  have hfree := findWhole_free h
  cases free with
  | false => exact absurd rfl hchanged
  | true =>
    rw [eq_comm, Bool.and_eq_true] at hfree
    exact ⟨rfl, rfl, hfree.2⟩

/-- Replacing whole names changes runs where they start. -/
theorem editsStarts_findWhole {word new : Text} (hword : isDotted word = true) (hnew : isDotted new = true) :
    EditsStarts (findWhole word) (replaced new) where
  faithful before t found free hfind := by
    obtain ⟨rfl, hpre⟩ := findWhole_spec hfind
    exact ⟨(isDotted_spec hword).1, hpre⟩
  run hfind := by
    obtain ⟨rfl, -⟩ := findWhole_spec hfind
    exact (isDotted_spec hword).2
  written {before t found free} hfind := by
    cases free with
    | false => exact .inl rfl
    | true =>
      have hfree := findWhole_free hfind
      rw [eq_comm, Bool.and_eq_true, Bool.not_eq_true'] at hfree
      exact .inr ⟨hfree.1, isDotted_spec hnew⟩

theorem replaceWhole_eq {word : Text} (h : isDotted word = true) (new t : Text) :
    replaceWhole word new t = substitute (findWhole word) (replaced new) t := by
  unfold replaceWhole
  rw [if_neg (by simpa using (isDotted_spec h).1)]
  rfl

variable {before : Option Char}

/-- **Replacing a name leaves none of it**: a run that a name heads, of those replaced up to now, was headed by one of
    the others before. -/
theorem starts_replaceWhole_le {pairs : List (Text × Text)} {word new : Text} (hword : isDotted word = true)
    (hnew : isDotted new = true) (hown : meets word new = false) (hpairs : ∀ pair ∈ pairs, meets pair.1 new = false)
    (t : Text) :
    starts (named (pairs ++ [(word, new)])) none (replaceWhole word new t) ≤ starts (named pairs) none t := by
  have happend (run : Text) : named (pairs ++ [(word, new)]) run = (named pairs run || heads word run) := by
    simp [named]
  rw [replaceWhole_eq hword, substitute_eq_edited]
  refine starts_edited_le (editsStarts_findWhole hword hnew) ?_ ?_ none t
  · intro before t hkept hgap hnamed
    rw [happend, Bool.or_eq_true] at hnamed
    refine hnamed.resolve_right fun hheads => ?_
    -- The word would have been found free, so it was replaced by itself.
    rw [heads_runOf (isDotted_spec hword).2] at hheads
    have hfind := findWhole_of_heads hgap hheads
    rcases hkept with hnone | ⟨found, free, hsome, hsame⟩
    · rw [hfind] at hnone
      cases hnone
    · rw [hfind] at hsome
      cases hsome
      have hself : heads word word = true := heads_iff.2 ⟨[], (List.append_nil word).symm, rfl⟩
      rw [show new = word from hsame, meets, hself] at hown
      cases hown
  · intro before found free rest hfind hchanged
    obtain ⟨rfl, rfl, hheads⟩ := findWhole_changed hfind hchanged
    obtain ⟨r, hr, hrest⟩ := heads_iff.1 hheads
    rw [List.append_cancel_left_eq] at hr
    subst hr
    -- What is written is headed by the target, so a name that headed it would meet the target.
    have hnewHeads : heads new (new ++ runOf rest) = true := heads_iff.2 ⟨_, rfl, by rw [head?_runOf, hrest]⟩
    have hnone {name : Text} (h : meets name new = false) : heads name (new ++ runOf rest) = false := by
      rw [Bool.eq_false_iff] at h ⊢
      exact fun hheads => h (meets_of_heads hheads hnewHeads)
    rw [happend, replaced, if_pos rfl, hnone hown, Bool.or_false]
    exact List.any_eq_false.2 fun pair hpair => Bool.eq_false_iff.1 (hnone (hpairs pair hpair))

/-- Where no name heads a run, replacing one changes nothing. -/
theorem replaceWhole_of_starts_eq_zero {pairs : List (Text × Text)} {word new : Text} (hword : isDotted word = true)
    (hnew : isDotted new = true) (hmem : (word, new) ∈ pairs) {t : Text} (h : starts (named pairs) none t = 0) :
    replaceWhole word new t = t := by
  rw [replaceWhole_eq hword, substitute_eq_edited]
  refine edited_eq_self (editsStarts_findWhole hword hnew) ?_ none t h
  intro before found free rest hfind hchanged
  obtain ⟨rfl, -, hheads⟩ := findWhole_changed hfind hchanged
  rw [← heads_runOf (isDotted_spec hword).2, runOf_append_run (isDotted_spec hword).2] at hheads
  exact List.any_eq_true.2 ⟨_, hmem, hheads⟩

/-! ## Code -/

section
variable {table : RenameTable}

theorem named_order (table : RenameTable) : named (order table) = named table := by
  funext run
  rw [Bool.eq_iff_iff, named, named, List.any_eq_true, List.any_eq_true]
  simp only [mem_order]

/-- Replacing names one after another leaves no name that had its turn. -/
theorem starts_foldl_replaceWhole_le (done : List (Text × Text)) {pairs : List (Text × Text)}
    (hdotted : ∀ pair ∈ pairs, isDotted pair.1 = true ∧ isDotted pair.2 = true)
    (hown : ∀ pair ∈ pairs, meets pair.1 pair.2 = false)
    (hearlier : (done ++ pairs).Pairwise fun first second => meets first.1 second.2 = false) (t : Text) :
    starts (named (done ++ pairs)) none (pairs.foldl (fun acc pair => replaceWhole pair.1 pair.2 acc) t) ≤
      starts (named done) none t := by
  -- The names that had their turn are collected in `done`.
  induction pairs generalizing done t with
  | nil => rw [List.append_nil, List.foldl_nil]
  | cons pair pairs ih =>
    obtain ⟨⟨hword, hnew⟩, hdotted⟩ := List.forall_mem_cons.1 hdotted
    obtain ⟨hself, hown⟩ := List.forall_mem_cons.1 hown
    have hdone : ∀ first ∈ done, meets first.1 pair.2 = false := fun first hfirst =>
      (List.pairwise_append.1 hearlier).2.2 first hfirst pair List.mem_cons_self
    have happend : done ++ pair :: pairs = done ++ [pair] ++ pairs := by simp
    rw [happend] at hearlier ⊢
    exact Nat.le_trans (ih _ hdotted hown hearlier _) (starts_replaceWhole_le hword hnew hself hdone t)

/-- **Renamed code holds no name.** -/
theorem starts_renameCode (h : table.Apart) (code : Text) : starts (named table) none (renameCode table code) = 0 := by
  have hnothing (before : Option Char) (t : Text) : starts (named []) before t = 0 := by
    induction t generalizing before with
    | nil => rfl
    | cons c t ih =>
      rw [starts_cons, ih]
      simp [named]
  have hdotted : ∀ pair ∈ order table, isDotted pair.1 = true ∧ isDotted pair.2 = true :=
    fun pair hpair => h.dotted pair (mem_order.1 hpair)
  have hown : ∀ pair ∈ order table, meets pair.1 pair.2 = false := fun pair hpair => h.own pair (mem_order.1 hpair)
  have hle : starts (named (order table)) none (renameCode table code) ≤ starts (named []) none code :=
    starts_foldl_replaceWhole_le [] hdotted hown h.earlier code
  rw [hnothing, named_order] at hle
  exact Nat.le_zero.1 hle

/-- Code without names stays. -/
theorem renameCode_of_starts_eq_zero (h : table.Apart) {code : Text} (hzero : starts (named table) none code = 0) :
    renameCode table code = code := by
  refine renameCode_induction (motive := (· = code)) (fun pair hpair t ht => ?_) rfl
  obtain ⟨hword, hnew⟩ := h.dotted pair hpair
  rw [ht]
  exact replaceWhole_of_starts_eq_zero hword hnew hpair hzero

theorem opensGap_renameCode (h : table.Apart) {code : Text} (hgap : OpensGap code) :
    OpensGap (renameCode table code) := by
  refine renameCode_induction (fun pair hpair t ht => ?_) hgap
  obtain ⟨hword, hnew⟩ := h.dotted pair hpair
  rw [replaceWhole_eq hword]
  exact opensGap_substitute (editsStarts_findWhole hword hnew) ht

/-! ## Texts -/

/-- How often a name of the table stands in a text as a whole. -/
def namesIn (table : RenameTable) (t : Text) : Nat := starts (named table) none t

/-- A text has the names of its segments. -/
theorem namesIn_eq_total (table : RenameTable) (t : Text) :
    namesIn table t = total (namesIn table) ((segments t).map Segment.text) :=
  starts_eq_total t

/-- A segment that was renamed holds no name if it is code; the others stay. -/
theorem namesIn_editedSegment (h : table.Apart) (s : Segment) :
    namesIn table (editedSegment (renameCode table) s) = if s.kind = .code then 0 else namesIn table s.text := by
  unfold editedSegment
  split
  · exact starts_renameCode h s.text
  · rfl

theorem namesIn_mapCode (h : table.Apart) (t : Text) :
    namesIn table (mapCode (renameCode table) t) =
      total (namesIn table) ((segments t).map (editedSegment (renameCode table))) :=
  starts_mapCode (fun _ => opensGap_renameCode h) t

/-- A name in code is used up. -/
theorem namesIn_mapCode_lt (h : table.Apart) {t : Text} {s : Segment} (hs : s ∈ segments t) (hcode : s.kind = .code)
    (hname : namesIn table s.text ≠ 0) : namesIn table (mapCode (renameCode table) t) < namesIn table t := by
  rw [namesIn_mapCode h, namesIn_eq_total]
  refine total_map_lt (fun u _ => ?_) hs ?_
  · rw [namesIn_editedSegment h]
    split
    · exact Nat.zero_le _
    · exact Nat.le_refl _
  · rw [namesIn_editedSegment h, if_pos hcode]
    exact Nat.pos_of_ne_zero hname

/-- **Renaming has nothing to do** exactly where no name stands in code. -/
theorem mapCode_renameCode_eq_iff (h : table.Apart) (t : Text) :
    mapCode (renameCode table) t = t ↔ ∀ s ∈ segments t, s.kind = .code → namesIn table s.text = 0 := by
  constructor
  · intro hsame s hs hcode
    refine Decidable.byContradiction fun hname => ?_
    have hlt := namesIn_mapCode_lt h hs hcode hname
    rw [hsame] at hlt
    exact Nat.lt_irrefl _ hlt
  · intro hnone
    exact mapCode_of_fixed fun s hs hcode => renameCode_of_starts_eq_zero h (hnone s hs hcode)

/-! ## Renaming twice -/

/-- A word that is one identifier is headed by itself only. -/
theorem eq_of_heads {name word : Text} (hword : ∀ c ∈ word, isIdentChar c = true) (h : heads name word = true) :
    name = word := by
  obtain ⟨rest, rfl, hrest⟩ := heads_iff.1 h
  cases rest with
  | nil => rw [List.append_nil]
  | cons c rest =>
    rw [List.head?_cons, Option.any_some, hword c (by simp)] at hrest
    cases hrest

/-- A run that an opening word heads is not headed by a name. -/
theorem named_of_opening (h : table.Apart) {word run : Text} (hmem : word ∈ openingWords)
    (hrun : heads word run = true) : named table run = false := by
  have hall : (openingWords.all fun word => word.all isIdentChar) = true := by decide +kernel
  refine List.any_eq_false.2 fun pair hpair hname => ?_
  have hopening := h.opening pair hpair word hmem
  have hmeets := meets_of_heads hname hrun
  rw [meets, hopening, Bool.or_false] at hmeets
  rw [eq_of_heads (List.all_eq_true.1 (List.all_eq_true.1 hall word hmem)) hmeets,
    heads_iff.2 ⟨[], (List.append_nil word).symm, rfl⟩] at hopening
  cases hopening

/-- Repair writes none of the names. -/
theorem foreign_named (h : table.Apart) : Foreign (named table) where
  notImport := named_of_opening h List.mem_cons_self (heads_iff.2 ⟨[], (List.append_nil _).symm, rfl⟩)
  notSimple {u r} hu := by
    refine List.any_eq_false.2 fun pair hpair hname => ?_
    obtain ⟨rest, hrest, -⟩ := heads_iff.1 hname
    obtain ⟨c, name, hopens⟩ := List.exists_cons_of_ne_nil (isDotted_spec (h.dotted pair hpair).1).1
    have hlower := h.lower pair hpair
    rw [hopens] at hrest hlower
    obtain rfl : u = c := (List.cons.inj hrest).1
    rw [List.head?_cons, Option.any_some, hu] at hlower
    cases hlower
  notQualified {root r} hroot :=
    named_of_opening h (List.mem_cons_of_mem _ hroot) (heads_iff.2 ⟨'.' :: r, rfl, not_isIdentChar_dot⟩)

theorem namesIn_fixImports_le (h : table.Apart) (t : Text) : namesIn table (fixImports t) ≤ namesIn table t :=
  (foreign_named h).importMeasure.fixImports_le t

/-- A text is renamed for good exactly if there is nothing left to rename: else a name was used up that repair does not
    write. -/
theorem renamedOnce_iff_unchanged (h : table.Apart) (t : Text) :
    RenamedOnce table t ↔ mapCode (renameCode table) (renameClasses table t) = renameClasses table t := by
  unfold RenamedOnce
  generalize renameClasses table t = u
  constructor
  · intro hsame
    refine Decidable.byContradiction fun hchanged => ?_
    have hrepaired : fixImports (mapCode (renameCode table) u) = u := by
      rw [renameClasses] at hsame
      simpa only [hchanged, if_false] using hsame
    rw [mapCode_renameCode_eq_iff h] at hchanged
    simp only [not_forall] at hchanged
    obtain ⟨s, hs, hcode, hname⟩ := hchanged
    -- Renaming used up a name and repair wrote none, so the text would have fewer names than it has.
    have hlt := namesIn_mapCode_lt h hs hcode hname
    have hle := namesIn_fixImports_le h (mapCode (renameCode table) u)
    rw [hrepaired] at hle
    exact Nat.lt_irrefl _ (Nat.lt_of_le_of_lt hle hlt)
  · intro hsame
    rw [renameClasses]
    simp only [hsame, if_true]

/-- **Names that stand in code only are renamed for good.** -/
theorem namesIn_renameClasses (h : table.Apart) {t : Text}
    (hcode : ∀ s ∈ segments t, s.kind ≠ .code → namesIn table s.text = 0) :
    namesIn table (renameClasses table t) = 0 := by
  have hzero : namesIn table (mapCode (renameCode table) t) = 0 := by
    rw [namesIn_mapCode h, total_eq_zero_iff, List.forall_mem_map]
    intro s hs
    rw [namesIn_editedSegment h]
    split
    · rfl
    · rename_i hother
      exact hcode s hs hother
  unfold renameClasses
  simp only
  split
  · rename_i hsame
    rwa [hsame] at hzero
  · exact Nat.le_zero.1 (hzero ▸ namesIn_fixImports_le h _)

/-- **Renaming twice is renaming once** exactly if the renamed text has no name in its code; and it has none if the
    names of the text stood in code only. -/
theorem renamedOnce_iff (h : table.Apart) (t : Text) :
    (RenamedOnce table t ↔ ∀ s ∈ segments (renameClasses table t), s.kind = .code → namesIn table s.text = 0)
      ∧ ((∀ s ∈ segments t, s.kind ≠ .code → namesIn table s.text = 0) → RenamedOnce table t) := by
  have hiff := (renamedOnce_iff_unchanged h t).trans (mapCode_renameCode_eq_iff h (renameClasses table t))
  refine ⟨hiff, fun hcode => hiff.2 fun s hs _ => ?_⟩
  have hzero := namesIn_renameClasses h hcode
  rw [namesIn_eq_total, total_eq_zero_iff, List.forall_mem_map] at hzero
  exact hzero s hs

end

/-- The names and targets of the table in effect stand apart. -/
theorem builtinRenames_apart : builtinRenames.Apart where
  dotted := by decide +kernel
  own := by decide +kernel
  earlier := by decide +kernel
  lower := by decide +kernel
  opening := by decide +kernel

/-- Beside a comment without names a class is renamed for good. -/
theorem renamedOnce_comment :
    RenamedOnce builtinRenames (text "// A mod.\nclass A extends net.minecraft.src.BaseMod \x7b\n\x7d\n") :=
  (renamedOnce_iff builtinRenames_apart _).2 (by decide +kernel)

/-- A name in a comment need not stay there: repair takes the import for one of the text and leaves the marks behind. -/
example :
    let first := text "import net.minecraft.src.BaseMod;\n"
    let hidden := text "/*\nimport net.minecraft.src.ModLoader;\n*/\n"
    ¬ RenamedOnce builtinRenames (first ++ hidden ++ text "class A \x7b\n\x7d\n") := by
  unfold RenamedOnce
  decide +kernel

end JavaMend.Java
