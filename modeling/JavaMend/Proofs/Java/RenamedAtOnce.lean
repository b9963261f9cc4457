import JavaMend.Proofs.Java.RenamedNames
import JavaMend.Proofs.Java.ShortenedCode

/-!
# `Proofs.Java.RenamedAtOnce` — names replaced one after another, or all at once

Code is renamed one name after another, the longest first. What that does to a run of name characters is seen in the run
(`renameCode_eq_mapRuns`), and one pass that gives every whole name its own target does the same to each run, unless a name
that has its turn later heads what was written for an earlier one. So renaming is simultaneous exactly for the tables in
which that cannot happen (`simultaneous_iff`).

## Contents
- **Runs.** `IsRun`, `mapRuns`; `mapRuns_mapRuns`, `edited_eq_mapRuns`.
- **One name after another.** `turn`, `renameRun`, `renamings`; `renameCode_eq_mapRuns`.
- **The order of names.** `goesBefore_trans`, `pairwise_order`, `order_eq_of_perm`; `length_lt_of_goesBefore`.
- **All names at once.** `longest?`, `renameAtOnce`; `longest?_spec`, `renameAtOnce_eq_mapRuns`.
- **Simultaneous renaming.** `Simultaneous`, `TargetsApart`; `simultaneous_iff`.
-/

namespace JavaMend.Java

open JavaMend Text

/-! ## Runs -/

/-- A run of name characters. -/
def IsRun (r : Text) : Prop := r ≠ [] ∧ ∀ c ∈ r, joinsName c = true

/-- Change a text run by run. -/
def mapRuns (f : Text → Text) : Text → Text
  | []     => []
  | c :: t =>
    if joinsName c then f (c :: runOf t) ++ mapRuns f (t.dropWhile joinsName)
    else c :: mapRuns f t
termination_by t => t.length
decreasing_by
  · have h := (List.dropWhile_sublist joinsName (l := t)).length_le
    simp only [List.length_cons]
    omega
  · simp

section
variable {f g : Text → Text} {c : Char} {r t : Text}

@[simp] theorem mapRuns_nil (f : Text → Text) : mapRuns f [] = [] := by rw [mapRuns]

theorem mapRuns_gap (hc : joinsName c = false) (t : Text) : mapRuns f (c :: t) = c :: mapRuns f t := by
  rw [mapRuns, if_neg (by simp [hc])]

theorem isRun_append (hr : IsRun r) (t : Text) : IsRun (r ++ runOf t) := by
  refine ⟨by simp [hr.1], fun c hc => ?_⟩
  rcases List.mem_append.1 hc with hc | hc
  · exact hr.2 c hc
  · exact List.all_eq_true.1 List.all_takeWhile c hc

theorem mapRuns_run (hr : IsRun r) (t : Text) :
    mapRuns f (r ++ t) = f (r ++ runOf t) ++ mapRuns f (t.dropWhile joinsName) := by
  obtain ⟨hne, hr⟩ := hr
  obtain ⟨c, r, rfl⟩ := List.exists_cons_of_ne_nil hne
  obtain ⟨hc, hr⟩ := List.forall_mem_cons.1 hr
  rw [List.cons_append, mapRuns, if_pos hc, runOf_append_run hr, List.dropWhile_append_of_pos hr, List.cons_append]

theorem mapRuns_congr (h : ∀ r, IsRun r → f r = g r) (t : Text) : mapRuns f t = mapRuns g t := by
  fun_induction mapRuns f t with
  | case1 => rw [mapRuns_nil]
  | case2 c t hc ih =>
    have hrun : IsRun ([c] ++ runOf t) := isRun_append ⟨by simp, by simpa using hc⟩ t
    rw [List.singleton_append] at hrun
    rw [mapRuns, if_pos hc, ih, h _ hrun]
  | case3 c t hc ih => rw [mapRuns, if_neg hc, ih]

/-- What is behind a run opens with a gap, also after an edit. -/
theorem dropWhile_mapRuns (t : Text) : runOf (mapRuns f (t.dropWhile joinsName)) = []
    ∧ (mapRuns f (t.dropWhile joinsName)).dropWhile joinsName = mapRuns f (t.dropWhile joinsName) := by
  cases hrest : t.dropWhile joinsName with
  | nil => simp [runOf]
  | cons c u =>
    have hc : joinsName c = false := by
      have hhead := List.head?_dropWhile_not joinsName t
      rwa [hrest] at hhead
    rw [mapRuns_gap hc]
    exact ⟨runOf_cons_gap hc _, List.dropWhile_cons_of_neg (by simp [hc])⟩

/-- **Runs are changed one edit after another.** -/
theorem mapRuns_mapRuns (hf : ∀ r, IsRun r → IsRun (f r)) (t : Text) :
    mapRuns g (mapRuns f t) = mapRuns (fun r => g (f r)) t := by
  fun_induction mapRuns f t with
  | case1 => rw [mapRuns_nil, mapRuns_nil]
  | case2 c t hc ih =>
    have hrun : IsRun (f ([c] ++ runOf t)) := hf _ (isRun_append ⟨by simp, by simpa using hc⟩ t)
    obtain ⟨hnone, hrest⟩ := dropWhile_mapRuns (f := f) t
    rw [List.singleton_append] at hrun
    rw [mapRuns_run hrun, hnone, hrest, List.append_nil, ih, mapRuns, if_pos hc]
  | case3 c t hc ih => rw [mapRuns_gap (by simpa using hc), mapRuns_gap (by simpa using hc), ih]

end

/-- **An edit at the starts of runs changes a text run by run**, if what it does to a run is what `f` does. -/
theorem edited_eq_mapRuns {α : Type} {find : Finder α} {write : Text → α → Text} {f : Text → Text}
    (he : EditsStarts find write)
    (hplain : ∀ before t, before.any joinsName = false → find before t = none → f (runOf t) = runOf t)
    (hhit : ∀ before m a rest, before.any joinsName = false → find before (m ++ rest) = some (m, a) →
      f (m ++ runOf rest) = write m a ++ runOf rest) (before : Option Char) (t : Text) :
    edited find write before t =
      if before.any joinsName then runOf t ++ mapRuns f (t.dropWhile joinsName) else mapRuns f t := by
  induction before, t using pieces_induction he.faithful with
  | nil before => simp [edited, pieces, runOf]
  | plain before c t hnone ih =>
    rw [edited_cons_none hnone, ih, Option.any_some]
    cases hc : joinsName c with
    | false => simp [runOf_cons_gap hc, List.dropWhile_cons_of_neg, hc, mapRuns_gap hc]
    | true =>
      have hrun : IsRun [c] := ⟨by simp, by simpa using hc⟩
      have hmap := mapRuns_run (f := f) hrun t
      rw [List.singleton_append, List.singleton_append, ← runOf_cons hc] at hmap
      rw [if_pos rfl, runOf_cons hc, List.dropWhile_cons_of_pos hc]
      split
      · rfl
      · rename_i hgap
        rw [hmap, hplain before (c :: t) (Bool.eq_false_iff.2 hgap) hnone, runOf_cons hc, List.cons_append]
  | hit before m a rest hfind ih =>
    have hm := he.run hfind
    have hrun : IsRun m := ⟨(he.faithful _ _ _ _ hfind).1, hm⟩
    rw [edited_hit he.faithful hfind, ih, if_pos (any_getLast? hrun.1 hm), runOf_append_run hm,
      List.dropWhile_append_of_pos hm]
    split
    · rename_i hbefore
      -- Within a run nothing is changed.
      have hsame := (he.written hfind).resolve_right fun h => by rw [h.1] at hbefore; cases hbefore
      rw [hsame, List.append_assoc]
    · rename_i hgap
      rw [mapRuns_run hrun, hhit before m a rest (Bool.eq_false_iff.2 hgap) hfind, List.append_assoc]

/-! ## One name after another -/

/-- A name has its turn at a run: if it heads the run, its target stands there instead. -/
def turn (pair : Text × Text) (run : Text) : Text :=
  if heads pair.1 run then pair.2 ++ run.drop pair.1.length else run

/-- Names have their turn at a run, one after another. -/
def renameRun (pairs : List (Text × Text)) (run : Text) : Text := pairs.foldl (fun r pair => turn pair r) run

/-- How many of the names are replaced when they have their turn at a run, one after another. -/
def renamings : List (Text × Text) → Text → Nat
  | [],            _   => 0
  | pair :: pairs, run => renamings pairs (turn pair run) + (heads pair.1 run).toNat

/-- All names and targets are dotted names. -/
def AllDotted (pairs : List (Text × Text)) : Prop := ∀ pair ∈ pairs, isDotted pair.1 = true ∧ isDotted pair.2 = true

instance (pairs : List (Text × Text)) : Decidable (AllDotted pairs) :=
  inferInstanceAs (Decidable (∀ pair ∈ pairs, isDotted pair.1 = true ∧ isDotted pair.2 = true))

section
variable {pair : Text × Text} {pairs : List (Text × Text)} {name new run rest : Text}

theorem isRun_of_isDotted (h : isDotted name = true) : IsRun name := isDotted_spec h

theorem turn_of_not_heads (h : heads pair.1 run = false) : turn pair run = run := by
  rw [turn, h, if_neg Bool.false_ne_true]

theorem turn_append (h : heads pair.1 (pair.1 ++ rest) = true) : turn pair (pair.1 ++ rest) = pair.2 ++ rest := by
  rw [turn, h, if_pos rfl, List.drop_left]

theorem isRun_turn (hnew : isDotted pair.2 = true) (hrun : IsRun run) : IsRun (turn pair run) := by
  obtain ⟨hne, hchars⟩ := isDotted_spec hnew
  unfold turn
  split
  · refine ⟨by simp [hne], fun c hc => ?_⟩
    rcases List.mem_append.1 hc with hc | hc
    · exact hchars c hc
    · exact hrun.2 c (List.mem_of_mem_drop hc)
  · exact hrun

/-- Replacing a name is its turn at each run. -/
theorem replaceWhole_eq_mapRuns (hname : isDotted name = true) (hnew : isDotted new = true) (t : Text) :
    replaceWhole name new t = mapRuns (turn (name, new)) t := by
  rw [replaceWhole_eq hname, substitute_eq_edited, edited_eq_mapRuns (editsStarts_findWhole hname hnew)]
  · rfl
  · intro before t hgap hnone
    refine turn_of_not_heads (Bool.eq_false_iff.2 fun hheads => ?_)
    rw [heads_runOf (isDotted_spec hname).2] at hheads
    rw [findWhole_of_heads hgap hheads] at hnone
    cases hnone
  · intro before m free rest hgap hfind
    obtain ⟨rfl, -⟩ := findWhole_spec hfind
    have hfree := findWhole_free hfind
    rw [hgap, Bool.not_false, Bool.true_and, ← heads_runOf (isDotted_spec hname).2,
      runOf_append_run (isDotted_spec hname).2] at hfree
    cases free with
    | true => exact turn_append hfree.symm
    | false => exact turn_of_not_heads hfree.symm

theorem mapRuns_id (t : Text) : mapRuns (fun r => r) t = t := by
  generalize hf : (fun r : Text => r) = f
  fun_induction mapRuns f t with
  | case1 => rfl
  | case2 c t hc ih =>
    subst hf
    rw [ih, List.cons_append, runOf, List.takeWhile_append_dropWhile]
  | case3 c t hc ih => rw [ih]

/-- **Renaming code is renaming each of its runs**, one name after another. -/
theorem foldl_replaceWhole_eq_mapRuns (h : AllDotted pairs) (t : Text) :
    pairs.foldl (fun acc pair => replaceWhole pair.1 pair.2 acc) t = mapRuns (renameRun pairs) t := by
  induction pairs generalizing t with
  | nil => exact (mapRuns_id t).symm
  | cons pair pairs ih =>
    obtain ⟨⟨hname, hnew⟩, hrest⟩ := List.forall_mem_cons.1 h
    rw [List.foldl_cons, ih hrest, replaceWhole_eq_mapRuns hname hnew, mapRuns_mapRuns fun r => isRun_turn hnew]
    rfl

/-- Names of which none heads a run leave it alone. -/
theorem renameRun_of_not_heads (h : ∀ pair ∈ pairs, heads pair.1 run = false) :
    renameRun pairs run = run ∧ renamings pairs run = 0 := by
  induction pairs with
  | nil => exact ⟨rfl, rfl⟩
  | cons pair pairs ih =>
    obtain ⟨hpair, hpairs⟩ := List.forall_mem_cons.1 h
    rw [renameRun, List.foldl_cons, ← renameRun, renamings, turn_of_not_heads hpair, hpair]
    exact ih hpairs

theorem renamings_pos (hmem : pair ∈ pairs) (h : heads pair.1 run = true) : 0 < renamings pairs run := by
  induction pairs with
  | nil => cases hmem
  | cons other pairs ih =>
    rw [renamings]
    cases hother : heads other.1 run with
    | true => simp
    | false =>
      rw [turn_of_not_heads hother]
      rcases List.mem_cons.1 hmem with rfl | hmem
      · rw [h] at hother
        cases hother
      · simpa using ih hmem

/-- What the first name that heads a run does, and what the names after it do. -/
theorem renameRun_split {pre post : List (Text × Text)} (hpre : ∀ other ∈ pre, heads other.1 run = false)
    (h : heads pair.1 run = true) : renameRun (pre ++ pair :: post) run = renameRun post (turn pair run)
      ∧ renamings (pre ++ pair :: post) run = renamings post (turn pair run) + 1 := by
  induction pre with
  | nil => exact ⟨rfl, by rw [List.nil_append, renamings, h]; rfl⟩
  | cons other pre ih =>
    obtain ⟨hother, hpre⟩ := List.forall_mem_cons.1 hpre
    obtain ⟨hrun, hcount⟩ := ih hpre
    rw [List.cons_append, renameRun, List.foldl_cons, ← renameRun, renamings, turn_of_not_heads hother, hother]
    exact ⟨hrun, hcount⟩

end

/-! ## The order of names -/

section
variable {a b c : Text × Text} {pairs : List (Text × Text)} {table other : RenameTable}

theorem goesBefore_iff : goesBefore a b = true ↔
    b.1.byteLength < a.1.byteLength ∨ a.1.byteLength = b.1.byteLength ∧ a.1.before b.1 = true := by
  unfold goesBefore
  split
  · simp [*]
  · rename_i hne
    simp [hne]

theorem goesBefore_trans (hab : goesBefore a b = true) (hbc : goesBefore b c = true) : goesBefore a c = true := by
  rw [goesBefore_iff] at *
  rcases hab with hab | ⟨hab, hab'⟩ <;> rcases hbc with hbc | ⟨hbc, hbc'⟩
  · exact .inl (by omega)
  · exact .inl (by omega)
  · exact .inl (by omega)
  · exact .inr ⟨by omega, before_trans hab' hbc'⟩

theorem goesBefore_total (hne : a.1 ≠ b.1) (h : goesBefore a b = false) : goesBefore b a = true := by
  rw [Bool.eq_false_iff, Ne, goesBefore_iff, not_or] at h
  rw [goesBefore_iff]
  by_cases hlength : a.1.byteLength = b.1.byteLength
  · exact .inr ⟨hlength.symm, before_total hne (Bool.eq_false_iff.2 fun hbefore => h.2 ⟨hlength, hbefore⟩)⟩
  · exact .inl (by omega)

theorem not_goesBefore_of (h : goesBefore a b = true) : goesBefore b a = false := by
  refine Bool.eq_false_iff.2 fun hba => ?_
  have hself := goesBefore_trans h hba
  rw [goesBefore_iff, before_irrefl] at hself
  simp at hself

theorem perm_insertByLength (pair : Text × Text) (pairs : List (Text × Text)) :
    (insertByLength pair pairs).Perm (pair :: pairs) := by
  induction pairs with
  | nil => exact .refl _
  | cons next pairs ih =>
    rw [insertByLength]
    split
    · exact .refl _
    · exact (ih.cons next).trans (.swap pair next pairs)

theorem perm_order (table : RenameTable) : (order table).Perm table := by
  induction table with
  | nil => exact .refl _
  | cons pair table ih => exact (perm_insertByLength pair (order table)).trans (ih.cons pair)

theorem pairwise_insertByLength (hne : ∀ next ∈ pairs, a.1 ≠ next.1)
    (h : pairs.Pairwise fun first second => goesBefore first second = true) :
    (insertByLength a pairs).Pairwise fun first second => goesBefore first second = true := by
  induction pairs with
  | nil => exact List.pairwise_singleton _ _
  | cons next pairs ih =>
    obtain ⟨hnext, hpairs⟩ := List.pairwise_cons.1 h
    obtain ⟨hfirst, hne⟩ := List.forall_mem_cons.1 hne
    rw [insertByLength]
    split
    · rename_i hbefore
      refine List.pairwise_cons.2 ⟨fun later hlater => ?_, h⟩
      rcases List.mem_cons.1 hlater with rfl | hlater
      · exact hbefore
      · exact goesBefore_trans hbefore (hnext later hlater)
    · rename_i hnot
      refine List.pairwise_cons.2 ⟨fun later hlater => ?_, ih hne hpairs⟩
      rcases mem_insertByLength.1 hlater with rfl | hlater
      · exact goesBefore_total hfirst (Bool.eq_false_iff.2 hnot)
      · exact hnext later hlater

/-- **The names have their turns in order**, if none is in the table twice. -/
theorem pairwise_order (h : (table.map Prod.fst).Nodup) :
    (order table).Pairwise fun first second => goesBefore first second = true := by
  induction table with
  | nil => exact .nil
  | cons pair table ih =>
    obtain ⟨hpair, hrest⟩ := List.nodup_cons.1 h
    refine pairwise_insertByLength (fun next hnext heq => hpair ?_) (ih hrest)
    rw [heq]
    exact List.mem_map_of_mem (mem_order.1 hnext)

/-- **The order of the entries of a table makes no difference.** -/
theorem order_eq_of_perm (h : (table.map Prod.fst).Nodup) (hperm : other.Perm table) : order other = order table := by
  have hother : (other.map Prod.fst).Nodup := (hperm.map Prod.fst).nodup_iff.2 h
  refine List.Perm.eq_of_pairwise (fun first second _ _ hbefore hafter => ?_) (pairwise_order hother) (pairwise_order h)
    ((perm_order other).trans (hperm.trans (perm_order table).symm))
  rw [not_goesBefore_of hbefore] at hafter
  cases hafter

/-- Of two names that head one text, the one that has its turn first is the longer one. -/
theorem length_lt_of_goesBefore {t : Text} (ha : heads a.1 t = true) (hb : heads b.1 t = true)
    (h : goesBefore a b = true) : b.1.length < a.1.length := by
  obtain ⟨r, hr, -⟩ := heads_iff.1 ha
  obtain ⟨s, hs, -⟩ := heads_iff.1 hb
  refine Nat.lt_of_not_le fun hle => ?_
  -- Else the first one would open the other one, and could not have more bytes.
  obtain ⟨x, hx⟩ := List.prefix_of_prefix_length_le (⟨r, hr.symm⟩ : a.1 <+: t) ⟨s, hs.symm⟩ hle
  have hbytes : b.1.byteLength = a.1.byteLength + byteLength x := by rw [← hx, byteLength_append]
  have hlength := length_le_byteLength x
  rcases goesBefore_iff.1 h with hlt | ⟨heq, hbefore⟩
  · omega
  · obtain rfl : x = [] := List.eq_nil_of_length_eq_zero (by omega)
    rw [← hx, List.append_nil, before_irrefl] at hbefore
    cases hbefore

end

/-! ## All names at once -/

/-- The first name that heads a text, with its target. -/
def longest? (table : RenameTable) (t : Text) : Option (Text × Text) := (order table).find? fun pair => heads pair.1 t

/-- The finder of the longest name that stands at a place as a whole; the value is its target. -/
def findLongest (table : RenameTable) : Finder Text := fun before t =>
  if before.any joinsName then none else longest? table t

/-- **Rename all names at once**: in one pass each whole name gives way to its target, the longest one where more than one
    stands, and all else is copied. -/
def renameAtOnce (table : RenameTable) (code : Text) : Text :=
  substitute (findLongest table) (fun _ target => target) code

/-- What that does to a run. -/
def renameRunAtOnce (table : RenameTable) (run : Text) : Text :=
  match longest? table run with
  | none      => run
  | some pair => turn pair run

/-- A table in which no name is twice, of dotted names and targets. -/
structure RenameTable.Proper (table : RenameTable) : Prop where
  nodup : (table.map Prod.fst).Nodup
  dotted : AllDotted table

section
variable {table : RenameTable} (h : table.Proper)

include h

/-- The name that is found is the longest one that heads the text. -/
theorem longest?_spec {t : Text} {pair : Text × Text} (hfind : longest? table t = some pair) : heads pair.1 t = true
    ∧ pair ∈ table ∧ ∀ other ∈ table, heads other.1 t = true → other.1.length ≤ pair.1.length := by
  obtain ⟨hheads, pre, post, horder, hpre⟩ := List.find?_eq_some_iff_append.1 hfind
  have hsorted := pairwise_order h.nodup
  rw [horder] at hsorted
  refine ⟨hheads, mem_order.1 (by simp [horder]), fun other hother hheadsOther => ?_⟩
  rw [← mem_order, horder, List.mem_append, List.mem_cons] at hother
  rcases hother with hother | rfl | hother
  · simpa [hheadsOther] using hpre other hother
  · exact Nat.le_refl _
  · have hbefore := (List.pairwise_cons.1 (List.pairwise_append.1 hsorted).2.1).1 other hother
    exact Nat.le_of_lt (length_lt_of_goesBefore hheads hheadsOther hbefore)

theorem longest?_runOf (t : Text) : longest? table (runOf t) = longest? table t := by
  have hsame : ∀ pair ∈ order table, heads pair.1 (runOf t) = heads pair.1 t := fun pair hpair =>
    heads_runOf (isDotted_spec (h.dotted pair (mem_order.1 hpair)).1).2 t
  rw [longest?, longest?]
  generalize order table = pairs at hsame
  induction pairs with
  | nil => rfl
  | cons pair pairs ih =>
    obtain ⟨hpair, hpairs⟩ := List.forall_mem_cons.1 hsame
    rw [List.find?_cons, List.find?_cons, hpair, ih hpairs]

theorem editsStarts_findLongest : EditsStarts (findLongest table) fun _ target => target where
  faithful before t m target hfind := by
    rw [findLongest] at hfind
    split at hfind
    · cases hfind
    · obtain ⟨hheads, hmem, -⟩ := longest?_spec h hfind
      obtain ⟨rest, hrest, -⟩ := heads_iff.1 hheads
      exact ⟨(isDotted_spec (h.dotted _ hmem).1).1, rest, hrest.symm⟩
  run hfind := by
    rw [findLongest] at hfind
    split at hfind
    · cases hfind
    · exact (isDotted_spec (h.dotted _ (longest?_spec h hfind).2.1).1).2
  written hfind := by
    rw [findLongest] at hfind
    split at hfind
    · cases hfind
    · rename_i hgap
      exact .inr ⟨Bool.eq_false_iff.2 hgap, isDotted_spec (h.dotted _ (longest?_spec h hfind).2.1).2⟩

theorem renameAtOnce_eq_mapRuns (t : Text) : renameAtOnce table t = mapRuns (renameRunAtOnce table) t := by
  rw [renameAtOnce, substitute_eq_edited, edited_eq_mapRuns (f := renameRunAtOnce table) (editsStarts_findLongest h)]
  · rfl
  · intro before t hgap hnone
    rw [findLongest, hgap, if_neg Bool.false_ne_true, ← longest?_runOf h] at hnone
    rw [renameRunAtOnce, hnone]
  · intro before m target rest hgap hfind
    rw [findLongest, hgap, if_neg Bool.false_ne_true] at hfind
    obtain ⟨hheads, hmem, -⟩ := longest?_spec h hfind
    have hname := (isDotted_spec (h.dotted _ hmem).1).2
    rw [← longest?_runOf h, runOf_append_run hname] at hfind
    rw [← heads_runOf hname, runOf_append_run hname] at hheads
    rw [renameRunAtOnce, hfind]
    exact turn_append hheads

theorem renameCode_eq_mapRuns (t : Text) : renameCode table t = mapRuns (renameRun (order table)) t :=
  foldl_replaceWhole_eq_mapRuns (fun pair hpair => h.dotted pair (mem_order.1 hpair)) t

end

/-! ## Simultaneous renaming -/

/-- Renaming code one name after another is renaming all names at once, and no run of the code is renamed twice. -/
structure Simultaneous (table : RenameTable) (code : Text) : Prop where
  pass : renameCode table code = renameAtOnce table code
  once : starts (fun run => decide (1 < renamings (order table) run)) none code = 0

/-- **No target gives a later name work.** A name that has its turn after another one does not head the target of that one;
    and if it goes on from the target, a longer name heads what goes on so from the name that was replaced. -/
def TargetsApart (table : RenameTable) : Prop :=
  ∀ pair ∈ table, ∀ later ∈ table, goesBefore pair later = true → heads later.1 pair.2 = false
    ∧ ∀ x, later.1 = pair.2 ++ x → heads pair.2 later.1 = true →
      ∃ longer ∈ table, pair.1.length < longer.1.length ∧ heads longer.1 (pair.1 ++ x) = true

theorem targetsApart_of_not_meets {table : RenameTable}
    (h : ∀ pair ∈ table, ∀ later ∈ table, meets pair.2 later.1 = false) : TargetsApart table := by
  intro pair hpair later hlater _
  obtain ⟨htarget, hname⟩ := Bool.or_eq_false_iff.1 (h pair hpair later hlater)
  refine ⟨hname, fun x _ hheads => ?_⟩
  rw [htarget] at hheads
  cases hheads

/-- Where targets stand apart, a later name does not head what is written for the longest name. -/
theorem not_heads_of_targetsApart {table : RenameTable} (hapart : TargetsApart table) {pair later : Text × Text} {rest : Text}
    (hpair : pair ∈ table) (hlater : later ∈ table) (hbefore : goesBefore pair later = true)
    (hrest : rest.head?.any isIdentChar = false)
    (hlongest : ∀ longer ∈ table, heads longer.1 (pair.1 ++ rest) = true → longer.1.length ≤ pair.1.length) :
    heads later.1 (pair.2 ++ rest) = false := by
  obtain ⟨hnot, hgoes⟩ := hapart pair hpair later hlater hbefore
  refine Bool.eq_false_iff.2 fun hheads => ?_
  -- The later name and the target head one text; so the name goes on from the target.
  have htarget : heads pair.2 (pair.2 ++ rest) = true := heads_iff.2 ⟨rest, rfl, hrest⟩
  have hmeets : heads pair.2 later.1 = true := by
    have hmeets := meets_of_heads hheads htarget
    rwa [meets, hnot, Bool.false_or] at hmeets
  obtain ⟨x, hx, -⟩ := heads_iff.1 hmeets
  obtain ⟨y, hy, hbehind⟩ := heads_iff.1 hheads
  rw [hx, List.append_assoc, List.append_cancel_left_eq] at hy
  -- Then a longer name heads the run.
  obtain ⟨longer, hlonger, hlength, hopens⟩ := hgoes x hx hmeets
  have hheadsLonger : heads longer.1 (pair.1 ++ rest) = true := by
    obtain ⟨z, hz, hfree⟩ := heads_iff.1 hopens
    rw [hy, ← List.append_assoc, hz, List.append_assoc, heads_iff]
    refine ⟨z ++ y, rfl, ?_⟩
    cases z with
    | nil => exact hbehind
    | cons c z => exact hfree
  have hle := hlongest longer hlonger hheadsLonger
  omega

section
variable {table : RenameTable} (h : table.Proper)

include h

/-- Where targets stand apart, a run is renamed at once and only once. -/
theorem renameRun_of_targetsApart (hapart : TargetsApart table) (run : Text) :
    renameRun (order table) run = renameRunAtOnce table run ∧ renamings (order table) run ≤ 1 := by
  unfold renameRunAtOnce
  cases hfind : longest? table run with
  | none =>
    have hnone : ∀ pair ∈ order table, heads pair.1 run = false := fun pair hpair =>
      Bool.eq_false_iff.2 (List.find?_eq_none.1 hfind pair hpair)
    obtain ⟨hrun, hcount⟩ := renameRun_of_not_heads hnone
    exact ⟨hrun, by rw [hcount]; decide⟩
  | some pair =>
    obtain ⟨hheads, hmem, hlongest⟩ := longest?_spec h hfind
    obtain ⟨-, pre, post, horder, hpre⟩ := List.find?_eq_some_iff_append.1 hfind
    obtain ⟨rest, rfl, hrest⟩ := heads_iff.1 hheads
    have hsorted := pairwise_order h.nodup
    rw [horder] at hsorted
    have hlater : ∀ later ∈ post, heads later.1 (turn pair (pair.1 ++ rest)) = false := by
      intro later hpost
      have hbefore := (List.pairwise_cons.1 (List.pairwise_append.1 hsorted).2.1).1 later hpost
      have hmemLater : later ∈ table := mem_order.1 (by simp [horder, hpost])
      rw [turn_append hheads]
      exact not_heads_of_targetsApart hapart hmem hmemLater hbefore hrest hlongest
    obtain ⟨hrun, hcount⟩ := renameRun_split
      (fun other hother => by simpa using hpre other hother) hheads
    obtain ⟨hsame, hzero⟩ := renameRun_of_not_heads hlater
    rw [horder, hrun, hcount, hsame, hzero]
    exact ⟨rfl, Nat.le_refl 1⟩

/-- A name that heads a run has a turn at it, and so does a later one that heads what is written for it. -/
theorem one_lt_renamings {pair later : Text × Text} (hpair : pair ∈ table) (hlater : later ∈ table)
    (hbefore : goesBefore pair later = true) {run : Text} (hheads : heads pair.1 run = true)
    (hlongest : ∀ longer ∈ table, heads longer.1 run = true → longer.1.length ≤ pair.1.length)
    (hwritten : heads later.1 (turn pair run) = true) : 1 < renamings (order table) run := by
  obtain ⟨pre, post, horder⟩ := List.append_of_mem (mem_order.2 hpair)
  have hsorted := pairwise_order h.nodup
  rw [horder] at hsorted
  obtain ⟨-, hpost, hacross⟩ := List.pairwise_append.1 hsorted
  -- A name before this one would be longer.
  have hpre : ∀ other ∈ pre, heads other.1 run = false := by
    intro other hother
    refine Bool.eq_false_iff.2 fun hheadsOther => ?_
    have hlt := length_lt_of_goesBefore hheadsOther hheads (hacross other hother pair List.mem_cons_self)
    have hle := hlongest other (mem_order.1 (by simp [horder, hother])) hheadsOther
    omega
  have hmem : later ∈ post := by
    have hmem := mem_order.2 hlater
    rw [horder, List.mem_append, List.mem_cons] at hmem
    rcases hmem with hmem | rfl | hmem
    · have hafter := hacross later hmem pair List.mem_cons_self
      rw [not_goesBefore_of hbefore] at hafter
      cases hafter
    · have hself := not_goesBefore_of hbefore
      rw [hbefore] at hself
      cases hself
    · exact hmem
  have hcount := renamings_pos hmem hwritten
  rw [horder, (renameRun_split hpre hheads).2]
  omega

/-- Where every run is renamed once at most, targets stand apart. -/
theorem targetsApart_of_once (honce : ∀ run, IsRun run → renamings (order table) run ≤ 1) : TargetsApart table := by
  intro pair hpair later hlater hbefore
  obtain ⟨hname, hnew⟩ := h.dotted pair hpair
  have hheads : heads pair.1 pair.1 = true := heads_iff.2 ⟨[], (List.append_nil _).symm, rfl⟩
  constructor
  · refine Bool.eq_false_iff.2 fun hmeets => ?_
    have hturn : turn pair pair.1 = pair.2 := by rw [turn, hheads, if_pos rfl, List.drop_length, List.append_nil]
    have htwice := one_lt_renamings h hpair hlater hbefore hheads (fun longer _ hlonger => ?_) (hturn.symm ▸ hmeets)
    · exact absurd (honce pair.1 (isRun_of_isDotted hname)) (by omega)
    · obtain ⟨rest, hrest, -⟩ := heads_iff.1 hlonger
      exact List.IsPrefix.length_le (⟨rest, hrest.symm⟩ : longer.1 <+: pair.1)
  · intro x hx htarget
    by_contra hnone
    have hopens : x.head?.any isIdentChar = false := by
      obtain ⟨y, hy, hopens⟩ := heads_iff.1 htarget
      rw [hx, List.append_cancel_left_eq] at hy
      rwa [hy]
    have hheads : heads pair.1 (pair.1 ++ x) = true := heads_iff.2 ⟨x, rfl, hopens⟩
    have hrun : IsRun (pair.1 ++ x) := by
      refine ⟨by simp [(isDotted_spec hname).1], fun c hc => ?_⟩
      rcases List.mem_append.1 hc with hc | hc
      · exact (isDotted_spec hname).2 c hc
      · exact (isDotted_spec (h.dotted later hlater).1).2 c (hx ▸ List.mem_append_right _ hc)
    have htwice := one_lt_renamings h hpair hlater hbefore hheads (fun longer hlonger hheadsLonger => ?_) ?_
    · exact absurd (honce _ hrun) (by omega)
    · exact Nat.le_of_not_lt fun hlength => hnone ⟨longer, hlonger, hlength, hheadsLonger⟩
    · rw [turn_append hheads, ← hx]
      exact heads_iff.2 ⟨[], (List.append_nil _).symm, rfl⟩

end

theorem starts_eq_zero {A : Text → Bool} (hA : ∀ r, IsRun r → A r = false) (before : Option Char) (t : Text) :
    starts A before t = 0 := by
  induction t generalizing before with
  | nil => rfl
  | cons c t ih =>
    rw [starts_cons, ih]
    cases hc : joinsName c with
    | false => simp
    | true =>
      have hrun : IsRun ([c] ++ runOf t) := isRun_append ⟨by simp, by simpa using hc⟩ t
      rw [runOf_cons hc, ← List.singleton_append, hA _ hrun]
      simp

theorem lexeme?_of_joinsName {c : Char} (hc : joinsName c = true) (t : Text) : lexeme? (c :: t) = none := by
  have hslash : joinsName '/' = false := by decide
  have hquote : joinsName '"' = false := by decide
  have happos : joinsName '\'' = false := by decide
  refine lexeme?_eq_none_iff.2 ⟨?_, ?_, ?_⟩
  · rintro rfl
    rw [hslash] at hc
    cases hc
  · rintro rfl
    rw [hquote] at hc
    cases hc
  · rintro rfl
    rw [happos] at hc
    cases hc

/-- A run is code. -/
theorem segments_run {r : Text} (hr : IsRun r) : segments r = [⟨.code, r⟩] := by
  obtain ⟨hne, hr⟩ := hr
  obtain ⟨c, r, rfl⟩ := List.exists_cons_of_ne_nil hne
  induction r generalizing c with
  | nil =>
    rw [segments_of_code (lexeme?_of_joinsName (hr c List.mem_cons_self) _)]
    simp [segments, consCode]
  | cons d r ih =>
    obtain ⟨hc, hr⟩ := List.forall_mem_cons.1 hr
    rw [segments_of_code (lexeme?_of_joinsName hc _), ih d (by simp) hr]
    rfl

/-- **Renaming is simultaneous for all code exactly if the targets of the table stand apart**; and the order of the entries
    of a table makes no difference for any. -/
theorem simultaneous_iff {table : RenameTable} (h : table.Proper) :
    ((∀ t, ∀ s ∈ segments t, s.kind = .code → Simultaneous table s.text) ↔ TargetsApart table)
      ∧ ∀ other : RenameTable, other.Perm table → ∀ code, renameCode other code = renameCode table code := by
  refine ⟨⟨fun hall => ?_, fun hapart t s _ _ => ?_⟩, fun other hperm code => ?_⟩
  · refine targetsApart_of_once h fun run hrun => ?_
    have honce := (hall run ⟨.code, run⟩ (by simp [segments_run hrun]) rfl).once
    have hcount := starts_run (A := fun run => decide (1 < renamings (order table) run)) hrun.1 hrun.2 none []
    rw [List.append_nil, honce] at hcount
    refine Nat.le_of_not_lt fun hlt => ?_
    simp [runOf, decide_eq_true hlt] at hcount
  · have hruns := renameRun_of_targetsApart h hapart
    refine ⟨?_, starts_eq_zero (fun r _ => ?_) none s.text⟩
    · rw [renameCode_eq_mapRuns h, renameAtOnce_eq_mapRuns h]
      exact mapRuns_congr (fun r _ => (hruns r).1) s.text
    · exact decide_eq_false (Nat.not_lt.2 (hruns r).2)
  · rw [renameCode, renameCode, order_eq_of_perm h.nodup hperm]

/-- The names and targets of the table in effect stand apart, so code is renamed by it at once. -/
theorem simultaneous_builtinRenames : builtinRenames.Proper ∧ TargetsApart builtinRenames
    ∧ ∀ t, ∀ s ∈ segments t, s.kind = .code → Simultaneous builtinRenames s.text := by
  have hproper : builtinRenames.Proper := ⟨by decide +kernel, by decide +kernel⟩
  have hapart := targetsApart_of_not_meets (by decide +kernel : ∀ pair ∈ builtinRenames, ∀ later ∈ builtinRenames,
    meets pair.2 later.1 = false)
  exact ⟨hproper, hapart, (simultaneous_iff hproper).1.2 hapart⟩

/-- A name that has its turn later may open a target: then what was written is renamed again. -/
theorem not_simultaneous_chained : ¬ ∀ table : RenameTable, table.Proper → table.fault? = none →
    ∀ t, ∀ s ∈ segments t, s.kind = .code → Simultaneous table s.text := by
  intro hall
  have hpass := (hall [(text "a.Bcd", text "c.D.E"), (text "c.D", text "q.R")]
    ⟨by decide +kernel, by decide +kernel⟩ (by decide +kernel) (text "a.Bcd x;\n") ⟨.code, text "a.Bcd x;\n"⟩
    (by decide +kernel) rfl).pass
  -- One name after another gives `q.R.E x;`, all at once `c.D.E x;`.
  have hdiffer : renameCode [(text "a.Bcd", text "c.D.E"), (text "c.D", text "q.R")] (text "a.Bcd x;\n")
    ≠ renameAtOnce [(text "a.Bcd", text "c.D.E"), (text "c.D", text "q.R")] (text "a.Bcd x;\n") := by decide +kernel
  exact hdiffer hpass

end JavaMend.Java
