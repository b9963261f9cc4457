import JavaMend.Diff.Fragments
import Mathlib.Data.List.Infix
import Mathlib.Data.List.Sort

/-!
# `Proofs.Diff.Grouping` — the groups of a patch folder

The group of a base holds the base and then all its continuations, in an order that is total and transitive: numbered ones
first (`perm_tail_groupOf`, `pairwise_tail_groupOf`). The order in which the folder lists its files does not matter, since
they are sorted first (`groups_perm`). What a group does not look at is whether another base lies between its own and a
name: the continuations of `a.patch.1.patch` are ones of `a.patch` as well, though `a.patch.1.patch` is not. So the groups
are apart if and only if no base with a continuation goes on with another one (`partitions_groups_iff`).

## Contents
- **Sorting.** `sortBy_eq`, `perm_sortBy`, `pairwise_sortBy`; `suffixLe_total`, `suffixLe_trans`.
- **Continuations.** `Continues`, `number?`, `NumberedFirst`; `suffix?_eq_some_iff`.
- **One group.** `perm_tail_groupOf`, `mem_tail_groupOf`, `pairwise_tail_groupOf`.
- **All groups.** `mem_groups`, `pairwise_groups`, `groups_perm`; `Grouped`, `grouped_groups`.
- **Partitions.** `Partitions`, `Nested`; `eq_or_append_prefix`, `partitions_groups_iff`, `not_partitions_nested`.
-/

namespace JavaMend.Diff

open JavaMend Text

/-! ## Sorting -/

section
variable {α : Type} {le : α → α → Bool}

theorem insertBy_eq (x : α) (ys : List α) : insertBy le x ys = ys.orderedInsert (fun a b => le a b = true) x := by
  induction ys with
  | nil => rfl
  | cons y ys ih => rw [insertBy, List.orderedInsert_cons, ih]

/-- Sorting is insertion sort. -/
theorem sortBy_eq (xs : List α) : sortBy le xs = xs.insertionSort fun a b => le a b = true := by
  induction xs with
  | nil => rfl
  | cons x xs ih =>
    rw [List.insertionSort_cons, ← ih, ← insertBy_eq]
    rfl

theorem perm_sortBy (xs : List α) : (sortBy le xs).Perm xs := by
  rw [sortBy_eq]
  exact List.perm_insertionSort _ xs

/-- Items are sorted by an order that is total and transitive. -/
theorem pairwise_sortBy (total : ∀ a b, le a b = true ∨ le b a = true)
    (trans : ∀ a b c, le a b = true → le b c = true → le a c = true) (xs : List α) :
    (sortBy le xs).Pairwise fun a b => le a b = true := by
  have htotal : Std.Total fun a b => le a b = true := ⟨total⟩
  have htrans : IsTrans α fun a b => le a b = true := ⟨trans⟩
  rw [sortBy_eq]
  exact List.pairwise_insertionSort _ xs

end

/-! ### The order of suffixes -/

theorem suffixLe_total (s t : Text) : suffixLe s t = true ∨ suffixLe t s = true := by
  unfold suffixLe
  cases readWord? 64 s with
  | none =>
    cases readWord? 64 t with
    | none => exact atMost_total s t
    | some n => exact .inr rfl
  | some m =>
    cases readWord? 64 t with
    | none => exact .inl rfl
    | some n => simpa only [decide_eq_true_eq] using Nat.le_total m n

theorem suffixLe_trans (s t u : Text) (h1 : suffixLe s t = true) (h2 : suffixLe t u = true) : suffixLe s u = true := by
  unfold suffixLe at *
  cases hs : readWord? 64 s <;> cases ht : readWord? 64 t <;> cases hu : readWord? 64 u <;>
    simp only [hs, ht, hu, decide_eq_true_eq, Bool.false_eq_true] at h1 h2 ⊢
  case none.none.none => exact atMost_trans s t u h1 h2
  case some.some.some => exact Nat.le_trans h1 h2

/-! ## Continuations -/

/-- The name goes on with the group of a base: it is no base itself, and the other one with a dot is a prefix of it. -/
def Continues (base name : Text) : Prop := isBase name = false ∧ (base ++ ['.']) <+: name

instance (base name : Text) : Decidable (Continues base name) := inferInstanceAs (Decidable (_ ∧ _))

/-- The number of a continuation, if its suffix is an unsigned word. -/
def number? (base name : Text) : Option Nat := (suffix? base name).bind (readWord? 64)

/-- Of two continuations of a base in a row, if the second one has a number, so has the first, and not a greater one. -/
def NumberedFirst (base first second : Text) : Prop :=
  ∀ n, number? base second = some n → ∃ m, number? base first = some m ∧ m ≤ n

section
variable {base name suffix : Text}

theorem suffix?_eq_some_iff : suffix? base name = some suffix ↔ isBase name = false ∧ name = base ++ ['.'] ++ suffix := by
  unfold suffix?
  cases isBase name with
  | true => simp
  | false => simp only [Bool.false_eq_true, if_false, dropPrefix?_eq_some, true_and]

/-- Exactly the continuations have a suffix. -/
theorem isSome_suffix?_iff : (suffix? base name).isSome = true ↔ Continues base name := by
  rw [Option.isSome_iff_exists]
  constructor
  · rintro ⟨suffix, h⟩
    obtain ⟨hbase, hname⟩ := suffix?_eq_some_iff.1 h
    exact ⟨hbase, suffix, hname.symm⟩
  · rintro ⟨hbase, suffix, hname⟩
    exact ⟨suffix, suffix?_eq_some_iff.2 ⟨hbase, hname.symm⟩⟩

/-- Names whose suffixes are in order have their numbers first. -/
theorem numberedFirst_of_suffixLe {first second s t : Text} (hs : suffix? base first = some s)
    (ht : suffix? base second = some t) (hle : suffixLe s t = true) : NumberedFirst base first second := by
  intro n hn
  rw [number?, ht, Option.bind_some] at hn
  rw [number?, hs, Option.bind_some]
  unfold suffixLe at hle
  cases hm : readWord? 64 s with
  | none =>
    rw [hm, hn] at hle
    exact absurd hle Bool.false_ne_true
  | some m =>
    rw [hm, hn] at hle
    exact ⟨m, rfl, of_decide_eq_true hle⟩

end

/-! ## One group -/

/-- The continuations of a base among names, each behind its suffix. -/
def suffixed (sorted : List Text) (base : Text) : List (Text × Text) :=
  sorted.filterMap fun name => (suffix? base name).map fun suffix => (suffix, name)

section
variable {sorted : List Text} {base name : Text}

theorem suffix?_of_mem_suffixed {x : Text × Text} (h : x ∈ suffixed sorted base) : suffix? base x.2 = some x.1 := by
  obtain ⟨name, -, hname⟩ := List.mem_filterMap.1 h
  obtain ⟨suffix, hsuffix, rfl⟩ := Option.map_eq_some_iff.1 hname
  exact hsuffix

theorem suffixed_snd (sorted : List Text) (base : Text) :
    (suffixed sorted base).map Prod.snd = sorted.filter fun name => Continues base name := by
  induction sorted with
  | nil => rfl
  | cons name sorted ih =>
    unfold suffixed at ih ⊢
    cases h : suffix? base name with
    | none =>
      have hnot : ¬ Continues base name := by
        rw [← isSome_suffix?_iff, h]
        exact Bool.false_ne_true
      rw [List.filterMap_cons_none (by rw [h]; rfl), ih, List.filter_cons_of_neg (by simpa using hnot)]
    | some suffix =>
      have hcontinues : Continues base name := by
        rw [← isSome_suffix?_iff, h]
        rfl
      rw [List.filterMap_cons_some (by rw [h]; rfl), List.map_cons, ih, List.filter_cons_of_pos (by simpa using hcontinues)]

/-- **Behind its base a group has all continuations**, in some order. -/
theorem perm_tail_groupOf (sorted : List Text) (base : Text) :
    (groupOf sorted base).names.tail.Perm (sorted.filter fun name => Continues base name) := by
  rw [← suffixed_snd]
  exact (perm_sortBy (suffixed sorted base)).map Prod.snd

theorem mem_tail_groupOf : name ∈ (groupOf sorted base).names.tail ↔ name ∈ sorted ∧ Continues base name := by
  rw [(perm_tail_groupOf sorted base).mem_iff, List.mem_filter, decide_eq_true_eq]

/-- **The numbered continuations come first**, in the order of their numbers. -/
theorem pairwise_tail_groupOf (sorted : List Text) (base : Text) :
    (groupOf sorted base).names.tail.Pairwise (NumberedFirst base) := by
  have hsorted : (sortBy (fun a b => suffixLe a.1 b.1) (suffixed sorted base)).Pairwise fun a b => suffixLe a.1 b.1 = true :=
    pairwise_sortBy (fun a b => suffixLe_total a.1 b.1) (fun a b c => suffixLe_trans a.1 b.1 c.1) _
  refine List.pairwise_map.2 (hsorted.imp_of_mem fun hx hy hle => ?_)
  exact numberedFirst_of_suffixLe (suffix?_of_mem_suffixed (mem_sortBy.1 hx)) (suffix?_of_mem_suffixed (mem_sortBy.1 hy)) hle

/-- A group of different names has no name twice: its base does not go on with itself. -/
theorem nodup_groupOf (h : sorted.Nodup) (hbase : isBase base = true) : (groupOf sorted base).names.Nodup := by
  refine List.nodup_cons.2 ⟨fun hmem => ?_, (perm_tail_groupOf sorted base).nodup_iff.2 (h.filter _)⟩
  have hself : Continues base base := (mem_tail_groupOf.1 hmem).2
  rw [hself.1] at hbase
  exact Bool.false_ne_true hbase

end

/-! ## All groups -/

section
variable {names : List Text} {g : Group}

theorem mem_groups : g ∈ groups names ↔ ∃ b ∈ names, isBase b = true ∧ g = groupOf (sortBy atMost names) b := by
  simp only [groups, List.mem_map, List.mem_filter, mem_sortBy, and_assoc, eq_comm]

/-- A group is the one of its base, which is among the names. -/
theorem eq_groupOf_of_mem (h : g ∈ groups names) :
    g.base ∈ names ∧ isBase g.base = true ∧ g = groupOf (sortBy atMost names) g.base := by
  obtain ⟨b, hb, hbase, rfl⟩ := mem_groups.1 h
  exact ⟨hb, hbase, rfl⟩

/-- **The groups stand in the strict order of their bases** if the names are different. -/
theorem pairwise_groups (h : names.Nodup) : (groups names).Pairwise fun g g' => before g.base g'.base = true := by
  have hsorted := pairwise_sortBy atMost_total atMost_trans names
  have hstrict : (sortBy atMost names).Pairwise fun s t => before s t = true := by
    refine hsorted.imp₂ (fun s t hle hne => ?_) ((perm_sortBy names).nodup_iff.2 h)
    exact (atMost_iff.1 hle).resolve_left hne
  exact List.pairwise_map.2 (hstrict.filter isBase)

/-- **The order in which a folder lists its files does not matter.** -/
theorem groups_perm {names' : List Text} (h : names'.Perm names) : groups names' = groups names := by
  have hperm : (sortBy atMost names').Perm (sortBy atMost names) :=
    ((perm_sortBy names').trans h).trans (perm_sortBy names).symm
  have hleft := pairwise_sortBy atMost_total atMost_trans names'
  have hright := pairwise_sortBy atMost_total atMost_trans names
  have hsorted : sortBy atMost names' = sortBy atMost names :=
    hperm.eq_of_pairwise (fun s t _ _ h1 h2 => atMost_antisymm h1 h2) hleft hright
  rw [groups, groups, hsorted]

end

/-- **The names are grouped by their bases**: each base opens exactly one group, and every continuation of a base stands in
    some group. A group has no name twice, and behind its base there are continuations only, numbered ones first. -/
structure Grouped (names : List Text) (gs : List Group) : Prop where
  keys : gs.Pairwise fun g g' => before g.base g'.base = true
  bases : ∀ g ∈ gs, g.base ∈ names ∧ isBase g.base = true ∧ g.names.head? = some g.base
  opened : ∀ b ∈ names, isBase b = true → ∃! g, g ∈ gs ∧ g.names.head? = some b
  continued : ∀ b ∈ names, isBase b = true → ∀ n ∈ names, Continues b n → ∃ g ∈ gs, n ∈ g.names
  rest : ∀ g ∈ gs, ∀ n ∈ g.names.tail, n ∈ names ∧ Continues g.base n
  nodup : ∀ g ∈ gs, g.names.Nodup
  numbered : ∀ g ∈ gs, g.names.tail.Pairwise (NumberedFirst g.base)

/-- Different names are grouped by their bases. -/
theorem grouped_groups {names : List Text} (h : names.Nodup) : Grouped names (groups names) where
  keys := pairwise_groups h
  bases g hg := by
    obtain ⟨hb, hbase, heq⟩ := eq_groupOf_of_mem hg
    exact ⟨hb, hbase, by rw [heq]; rfl⟩
  opened b hb hbase := by
    refine ⟨groupOf (sortBy atMost names) b, ⟨mem_groups.2 ⟨b, hb, hbase, rfl⟩, rfl⟩, ?_⟩
    rintro g ⟨hg, hhead⟩
    obtain ⟨c, -, -, rfl⟩ := mem_groups.1 hg
    obtain rfl : c = b := Option.some.inj hhead
    rfl
  continued b hb hbase n hn hcontinues := by
    refine ⟨groupOf (sortBy atMost names) b, mem_groups.2 ⟨b, hb, hbase, rfl⟩, List.mem_of_mem_tail ?_⟩
    exact mem_tail_groupOf.2 ⟨mem_sortBy.2 hn, hcontinues⟩
  rest g hg n hn := by
    obtain ⟨b, -, -, rfl⟩ := mem_groups.1 hg
    obtain ⟨hmem, hcontinues⟩ := mem_tail_groupOf.1 hn
    exact ⟨mem_sortBy.1 hmem, hcontinues⟩
  nodup g hg := by
    obtain ⟨b, -, hbase, rfl⟩ := mem_groups.1 hg
    exact nodup_groupOf ((perm_sortBy names).nodup_iff.2 h) hbase
  numbered g hg := by
    obtain ⟨b, -, -, rfl⟩ := mem_groups.1 hg
    exact pairwise_tail_groupOf _ b

/-! ## Partitions -/

/-- **The groups partition the names**: they are grouped by their bases, and no other name stands in two groups. -/
structure Partitions (names : List Text) (gs : List Group) : Prop extends Grouped names gs where
  apart : ∀ g ∈ gs, ∀ g' ∈ gs, ∀ n ∈ g.names, n ∈ g'.names → isBase n = false → g = g'

/-- Some base extends another one with a dot, and has a continuation. -/
def Nested (names : List Text) : Prop :=
  ∃ b ∈ names, ∃ c ∈ names, ∃ n ∈ names, isBase b = true ∧ isBase c = true ∧ (b ++ ['.']) <+: c ∧ Continues c n

instance (names : List Text) : Decidable (Nested names) := inferInstanceAs (Decidable (∃ _ ∈ _, _))

/-- Of two texts with a dot that are prefixes of one name, one extends the other, unless they are the same. -/
theorem eq_or_append_prefix {b c n : Text} (hb : (b ++ ['.']) <+: n) (hc : (c ++ ['.']) <+: n) :
    b = c ∨ (b ++ ['.']) <+: c ∨ (c ++ ['.']) <+: b := by
  rcases Nat.lt_trichotomy b.length c.length with hlt | heq | hgt
  · have hprefix : c <+: n := (List.prefix_append c ['.']).trans hc
    exact .inr (.inl (List.prefix_of_prefix_length_le hb hprefix (by rw [List.length_append]; exact hlt)))
  · have hsame : b ++ ['.'] = c ++ ['.'] :=
      (List.prefix_of_prefix_length_le hb hc (by simp [heq])).eq_of_length (by simp [heq])
    exact .inl (List.append_cancel_right hsame)
  · have hprefix : b <+: n := (List.prefix_append b ['.']).trans hb
    exact .inr (.inr (List.prefix_of_prefix_length_le hc hprefix (by rw [List.length_append]; exact hgt)))

section
variable {names : List Text}

/-- A name in a group that is no base goes on with the base of the group. -/
theorem continues_of_mem {g : Group} (hg : g ∈ groups names) {n : Text} (hn : n ∈ g.names) (hbase : isBase n = false) :
    n ∈ names ∧ Continues g.base n := by
  obtain ⟨b, -, hb, rfl⟩ := mem_groups.1 hg
  rcases List.mem_cons.1 hn with rfl | hn
  · exact absurd (hbase.symm.trans hb) Bool.false_ne_true
  · obtain ⟨hmem, hcontinues⟩ := mem_tail_groupOf.1 hn
    exact ⟨mem_sortBy.1 hmem, hcontinues⟩

/-- Without nested bases with continuations, the groups share no name. -/
theorem apart_of_not_nested (h : ¬ Nested names) {g g' : Group} (hg : g ∈ groups names) (hg' : g' ∈ groups names) {n : Text}
    (hn : n ∈ g.names) (hn' : n ∈ g'.names) (hbase : isBase n = false) : g = g' := by
  obtain ⟨hb, hb', heq⟩ := eq_groupOf_of_mem hg
  obtain ⟨hc, hc', heq'⟩ := eq_groupOf_of_mem hg'
  obtain ⟨hmem, hcontinues⟩ := continues_of_mem hg hn hbase
  have hcontinues' := (continues_of_mem hg' hn' hbase).2
  rcases eq_or_append_prefix hcontinues.2 hcontinues'.2 with hsame | hprefix | hprefix
  · rw [heq, heq', hsame]
  · exact absurd ⟨_, hb, _, hc, n, hmem, hb', hc', hprefix, hcontinues'⟩ h
  · exact absurd ⟨_, hc, _, hb, n, hmem, hc', hb', hprefix, hcontinues⟩ h

/-- A continuation of a nested base stands in the groups of both bases. -/
theorem not_nested_of_apart
    (h : ∀ g ∈ groups names, ∀ g' ∈ groups names, ∀ n ∈ g.names, n ∈ g'.names → isBase n = false → g = g') :
    ¬ Nested names := by
  rintro ⟨b, hb, c, hc, n, hn, hb', hc', hprefix, hcontinues⟩
  have houter : Continues b n :=
    ⟨hcontinues.1, hprefix.trans ((List.prefix_append c ['.']).trans hcontinues.2)⟩
  have hmem {d : Text} (hd : Continues d n) : n ∈ (groupOf (sortBy atMost names) d).names :=
    List.mem_of_mem_tail (mem_tail_groupOf.2 ⟨mem_sortBy.2 hn, hd⟩)
  have hsame := h _ (mem_groups.2 ⟨b, hb, hb', rfl⟩) _ (mem_groups.2 ⟨c, hc, hc', rfl⟩) n (hmem houter) (hmem hcontinues)
    hcontinues.1
  obtain rfl : b = c := congrArg Group.base hsame
  have hlength := hprefix.length_le
  rw [List.length_append] at hlength
  exact Nat.not_succ_le_self _ hlength

/-- **The groups of a folder.** The names are grouped by their bases, in whatever order they are listed. The groups
    partition them if and only if no base that extends another one with a dot has a continuation: such a continuation
    stands in both groups. -/
theorem partitions_groups_iff (h : names.Nodup) :
    Grouped names (groups names)
      ∧ (∀ names', names'.Perm names → groups names' = groups names)
      ∧ (Partitions names (groups names) ↔ ¬ Nested names) := by
  refine ⟨grouped_groups h, fun _ => groups_perm, fun hparts => not_nested_of_apart hparts.apart, fun hnot => ?_⟩
  exact ⟨grouped_groups h, fun g hg g' hg' n hn hn' => apart_of_not_nested hnot hg hg' hn hn'⟩

end

/-- A nested base without continuations does no harm; a file without a base is in no group. -/
theorem partitions_groups_numbered :
    ∃ names : List Text,
      names = [text "a.patch", text "a.patch.10", text "a.patch.2", text "a.patch.b.patch", text "README.txt", text "a.patch.x"]
        ∧ names.Nodup ∧ ¬ Nested names ∧ Partitions names (groups names) ∧ groups names.reverse = groups names
        ∧ (groups names).map Group.names
          = [[text "a.patch", text "a.patch.2", text "a.patch.10", text "a.patch.x"], [text "a.patch.b.patch"]] := by
  let names := [text "a.patch", text "a.patch.10", text "a.patch.2", text "a.patch.b.patch", text "README.txt", text "a.patch.x"]
  have hnodup : names.Nodup := by decide
  have hnot : ¬ Nested names := by decide +kernel
  obtain ⟨-, hperm, hparts⟩ := partitions_groups_iff hnodup
  exact ⟨names, rfl, hnodup, hnot, hparts.2 hnot, hperm _ names.reverse_perm, by decide +kernel⟩

/-- The continuation of a nested base stands in two groups, and is tried in both. -/
theorem not_partitions_nested :
    ∃ names : List Text, names = [text "a.patch", text "a.patch.1.patch", text "a.patch.1.patch.2"] ∧ names.Nodup
      ∧ (groups names).map Group.names
        = [[text "a.patch", text "a.patch.1.patch.2"], [text "a.patch.1.patch", text "a.patch.1.patch.2"]]
      ∧ ¬ Partitions names (groups names) := by
  refine ⟨_, rfl, by decide, by decide +kernel, fun hparts => not_nested_of_apart hparts.apart ?_⟩
  exact ⟨text "a.patch", by simp, text "a.patch.1.patch", by simp, text "a.patch.1.patch.2", by simp, by decide, by decide,
    by decide, by decide⟩

end JavaMend.Diff
