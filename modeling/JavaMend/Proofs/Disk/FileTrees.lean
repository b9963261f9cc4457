import JavaMend.Proofs.Disk.Making
import Mathlib.Data.List.Nodup
import Mathlib.Data.List.Perm.Basic

/-!
# `Proofs.Disk.FileTrees` — trees of files below a folder

A tree of files gives bytes to paths, none of which leads through another one. A folder holds the tree if its files are
found below the folder and no others; where nothing is below a folder, the files can be put one after the other
(`Planted.snoc`), and then the folder holds them (`Planted.holds`).

## Contents
- **Disks.** `Distinct`; `item?_eq_some_iff`, `distinct_put`, `distinct_makeFolders`.
- **Files below a folder.** `mem_filesBelow`, `nodup_filesBelow`.
- **Trees.** `FileTree`, `Holds`; `Holds.filesBelow_perm`.
- **Planting.** `Bare`, `Planted`; `Planted.clearWay`, `Planted.snoc`, `Planted.holds`.
-/

namespace JavaMend
namespace Disk

open Text

/-! ## Disks -/

/-- No place is listed twice. -/
def Distinct (d : Disk) : Prop := (d.items.map Prod.fst).Nodup

instance (d : Disk) : Decidable d.Distinct := inferInstanceAs (Decidable (List.Nodup _))

theorem distinct_put {d : Disk} (h : d.Distinct) (p : Place) (item : Item) : (d.put p item).Distinct := by
  unfold Distinct put
  rw [List.map_cons, List.nodup_cons]
  refine ⟨fun hmem => ?_, h.sublist (List.filter_sublist.map _)⟩
  obtain ⟨e, he, hp⟩ := List.mem_map.1 hmem
  simp [hp] at he

theorem distinct_makeFolders {dir : Place} {path : Text} {d : Disk} (h : d.Distinct) :
    ((makeFolders dir path).on d).2.Distinct := by
  refine related_makeFolders (R := fun d d' => d.Distinct → d'.Distinct) (fun _ => id) (fun h h' => h' ∘ h)
    (fun {d d' path} hmade hd => ?_) path d h
  obtain ⟨p, -, -, rfl⟩ := makeFolder_ok hmade
  exact distinct_put hd p .folder

theorem item?_eq_some_iff {d : Disk} (h : d.Distinct) {q : Place} (hq : q ≠ []) {item : Item} :
    d.item? q = some item ↔ (q, item) ∈ d.items := by
  unfold item?
  rw [if_neg hq, Option.map_eq_some_iff]
  constructor
  · rintro ⟨e, he, rfl⟩
    have hplace := List.find?_some he
    rw [beq_iff_eq] at hplace
    exact hplace ▸ List.mem_of_find?_eq_some he
  · intro hmem
    cases hfind : d.items.find? fun e => e.1 == q with
    | none => simpa using List.find?_eq_none.1 hfind _ hmem
    | some e =>
      have hplace : e.1 = q := by simpa using List.find?_some hfind
      have hsame := List.inj_on_of_nodup_map h (List.mem_of_find?_eq_some hfind) hmem hplace
      exact ⟨e, rfl, by rw [hsame]⟩

theorem file?_eq_some_iff {d : Disk} {q : Place} {data : Bytes} :
    d.file? q = some data ↔ ∃ x, d.item? q = some (.file data x) := by
  refine ⟨item?_of_file?, ?_⟩
  rintro ⟨x, hx⟩
  simp [file?, hx]

/-! ## Files below a folder -/

theorem below?_eq_some_iff {p q : Place} {ns : List Text} : below? p q = some ns ↔ ns ≠ [] ∧ q = p ++ ns := by
  unfold below?
  rw [Option.ite_none_right_eq_some, Bool.and_eq_true, List.isPrefixOf_iff_prefix, bne_iff_ne, Option.some.injEq]
  constructor
  · rintro ⟨⟨⟨rest, rfl⟩, hne⟩, hrest⟩
    rw [List.drop_left] at hrest
    subst hrest
    exact ⟨by rintro rfl; simp at hne, rfl⟩
  · rintro ⟨hne, rfl⟩
    exact ⟨⟨List.prefix_append p ns, by simp [hne]⟩, List.drop_left⟩

theorem insertInOrder_perm {α : Type} (e : List Text × α) (l : List (List Text × α)) :
    (insertInOrder e l).Perm (e :: l) := by
  induction l with
  | nil => exact .refl _
  | cons f l ih =>
    unfold insertInOrder
    split
    · exact (ih.cons f).trans (.swap e f l)
    · exact .refl _

theorem foldr_insertInOrder_perm {α : Type} (l : List (List Text × α)) : (l.foldr insertInOrder []).Perm l := by
  induction l with
  | nil => exact .refl _
  | cons e l ih => exact (insertInOrder_perm e _).trans (ih.cons e)

/-- The file that an item is, by the names that lead to it from a folder. -/
def fileBelow? (p : Place) (e : Place × Item) : Option (List Text × Bytes) :=
  match below? p e.1, e.2 with
  | some names, .file data _ => some (names, data)
  | _,          _            => none

theorem fileBelow?_eq_some_iff {p : Place} {e : Place × Item} {ns : List Text} {data : Bytes} :
    fileBelow? p e = some (ns, data) ↔ ns ≠ [] ∧ ∃ x, e = (p ++ ns, .file data x) := by
  obtain ⟨q, item⟩ := e
  unfold fileBelow?
  split
  · rename_i names data' x hbelow hitem
    simp only at hbelow hitem
    subst hitem
    rw [below?_eq_some_iff] at hbelow
    simp only [Option.some.injEq, Prod.mk.injEq, Item.file.injEq]
    constructor
    · rintro ⟨rfl, rfl⟩
      exact ⟨hbelow.1, x, hbelow.2, rfl, rfl⟩
    · rintro ⟨-, y, hq, rfl, -⟩
      exact ⟨List.append_cancel_left (hbelow.2.symm.trans hq), rfl⟩
  · rename_i hother
    simp only [reduceCtorEq, false_iff, not_and, not_exists, Prod.mk.injEq]
    rintro hne x rfl rfl
    exact hother ns data x (below?_eq_some_iff.2 ⟨hne, rfl⟩) rfl

theorem filesBelow_perm (d : Disk) (p : Place) : (d.filesBelow p).Perm (d.items.filterMap (fileBelow? p)) :=
  foldr_insertInOrder_perm _

theorem mem_filesBelow {d : Disk} (h : d.Distinct) {p : Place} {ns : List Text} {data : Bytes} :
    (ns, data) ∈ d.filesBelow p ↔ ns ≠ [] ∧ d.file? (p ++ ns) = some data := by
  rw [(filesBelow_perm d p).mem_iff, List.mem_filterMap]
  simp only [fileBelow?_eq_some_iff]
  constructor
  · rintro ⟨e, he, hne, x, rfl⟩
    exact ⟨hne, file?_eq_some_iff.2 ⟨x, (item?_eq_some_iff h (by simp [hne])).2 he⟩⟩
  · rintro ⟨hne, hfile⟩
    obtain ⟨x, hx⟩ := file?_eq_some_iff.1 hfile
    exact ⟨_, (item?_eq_some_iff h (by simp [hne])).1 hx, hne, x, rfl⟩

theorem nodup_filesBelow {d : Disk} (h : d.Distinct) (p : Place) : (d.filesBelow p).Nodup := by
  rw [(filesBelow_perm d p).nodup_iff]
  refine List.pairwise_filterMap.2 ((List.pairwise_map.1 h).imp ?_)
  rintro e e' hne ⟨ns, data⟩ hf _ hf' rfl
  obtain ⟨-, x, rfl⟩ := fileBelow?_eq_some_iff.1 hf
  obtain ⟨-, x', rfl⟩ := fileBelow?_eq_some_iff.1 hf'
  exact hne rfl

end Disk

/-! ## Trees -/

/-- **A tree of files**: each of the files has a path of names and bytes, and none is where another one leads through. -/
structure FileTree where
  files : List (List Text × Bytes)
  nodup : files.Nodup
  named : ∀ f ∈ files, f.1 ≠ [] ∧ ∀ n ∈ f.1, Disk.isName n = true
  apart : ∀ f ∈ files, ∀ g ∈ files, f.1 <+: g.1 → f = g

/-- Of two files none is where the other one leads through. -/
theorem FileTree.pairwise_apart (t : FileTree) : t.files.Pairwise fun f g => ¬ f.1 <+: g.1 ∧ ¬ g.1 <+: f.1 := by
  refine t.nodup.imp_of_mem fun {f g} hf hg hne => ⟨fun hup => hne (t.apart f hf g hg hup), fun hup => ?_⟩
  exact hne (t.apart g hg f hf hup).symm

/-- The same files in another order. -/
def FileTree.reorder (t : FileTree) {files : List (List Text × Bytes)} (h : files.Perm t.files) : FileTree where
  files := files
  nodup := h.nodup_iff.2 t.nodup
  named := fun f hf => t.named f (h.mem_iff.1 hf)
  apart := fun f hf g hg => t.apart f (h.mem_iff.1 hf) g (h.mem_iff.1 hg)

namespace Disk

/-- **A folder holds a tree**: below it there are the files of the tree and no others. -/
def Holds (d : Disk) (p : Place) (t : FileTree) : Prop :=
  ∀ ns data, ns ≠ [] → (d.file? (p ++ ns) = some data ↔ (ns, data) ∈ t.files)

theorem Holds.filesBelow_perm {d : Disk} {p : Place} {t : FileTree} (h : d.Holds p t) (hd : d.Distinct) :
    (d.filesBelow p).Perm t.files := by
  refine (List.perm_ext_iff_of_nodup (nodup_filesBelow hd p) t.nodup).2 ?_
  rintro ⟨ns, data⟩
  rw [mem_filesBelow hd]
  constructor
  · rintro ⟨hne, hfile⟩
    exact (h ns data hne).1 hfile
  · intro hmem
    have hne := (t.named _ hmem).1
    exact ⟨hne, (h ns data hne).2 hmem⟩

/-! ## Planting -/

/-- There is nothing below the place. -/
def Bare (d : Disk) (p : Place) : Prop := ∀ q, Below p q → d.item? q = none

/-- **Files were put below a place** with the folders on the way to them; nothing else is changed. -/
structure Planted (p : Place) (files : List (List Text × Bytes)) (d d' : Disk) : Prop where
  file : ∀ f ∈ files, d'.item? (p ++ f.1) = some (.file f.2 false)
  folder : ∀ f ∈ files, ∀ up n, up ++ [n] <+: f.1 → d'.item? (p ++ up) = some .folder
  other : ∀ q, (∀ f ∈ files, ∀ up, up <+: f.1 → q ≠ p ++ up) → d'.item? q = d.item? q

section
variable {d d₁ d₂ : Disk} {p : Place} {files : List (List Text × Bytes)}

theorem Planted.nil (p : Place) (d : Disk) : Planted p [] d d := ⟨by simp, by simp, fun _ _ => rfl⟩

/-- What is below the place is a file, a folder on the way to a file, or nothing. -/
theorem Planted.item_cases (h : Planted p files d d₁) (hbare : d.Bare p) {ns : List Text} (hne : ns ≠ []) :
    (∃ data, (ns, data) ∈ files ∧ d₁.item? (p ++ ns) = some (.file data false))
      ∨ (∃ f ∈ files, ns <+: f.1 ∧ d₁.item? (p ++ ns) = some .folder)
      ∨ (∀ f ∈ files, ¬ ns <+: f.1) ∧ d₁.item? (p ++ ns) = none := by
  by_cases hway : ∃ f ∈ files, ns <+: f.1
  · obtain ⟨⟨_, data⟩, hf, rest, rfl⟩ := hway
    cases rest with
    | nil =>
      rw [List.append_nil] at hf
      exact .inl ⟨data, hf, h.file _ hf⟩
    | cons n rest =>
      exact .inr (.inl ⟨_, hf, List.prefix_append ns _, h.folder _ hf ns n ⟨rest, by simp⟩⟩)
  · -- No file is here or further on, so the place is as it was.
    have hoff : ∀ f ∈ files, ¬ ns <+: f.1 := fun f hf hup => hway ⟨f, hf, hup⟩
    refine .inr (.inr ⟨hoff, ?_⟩)
    have hsame : d₁.item? (p ++ ns) = d.item? (p ++ ns) := by
      refine h.other _ fun f hf up hup heq => hoff f hf ?_
      rwa [List.append_cancel_left heq]
    rw [hsame]
    exact hbare _ ⟨ns, hne, rfl⟩

theorem Planted.start (h : Planted p files d d₁) (hp : d.item? p = some .folder) (hne : ∀ f ∈ files, f.1 ≠ []) :
    d₁.item? p = some .folder := by
  cases files with
  | nil => rw [h.other p (by simp), hp]
  | cons f files =>
    obtain ⟨n, ns, hf⟩ := List.exists_cons_of_ne_nil (hne f List.mem_cons_self)
    simpa using h.folder f List.mem_cons_self [] n (by simp [hf])

variable {init : List Text} {n : Text}

/-- On the way to a further file there are folders or nothing, and nothing is in its place. -/
theorem Planted.clearWay (h : Planted p files d d₁) (hp : d.item? p = some .folder) (hbare : d.Bare p)
    (hnamed : ∀ f ∈ files, f.1 ≠ []) (hnames : ∀ m ∈ init ++ [n], isName m = true)
    (hapart : ∀ g ∈ files, ¬ g.1 <+: init ++ [n] ∧ ¬ init ++ [n] <+: g.1) :
    ClearWay d₁ p init ∧ d₁.item? (p ++ (init ++ [n])) = none := by
  refine ⟨⟨fun m hm => hnames m (List.mem_append_left _ hm), h.start hp hnamed, fun up hup => ?_⟩, ?_⟩
  · by_cases hnil : up = []
    · subst hnil
      exact .inr (by simpa using h.start hp hnamed)
    · rcases h.item_cases hbare hnil with ⟨data, hf, -⟩ | ⟨-, -, -, hfolder⟩ | ⟨-, hnone⟩
      · exact absurd (hup.trans (List.prefix_append init [n])) (hapart _ hf).1
      · exact .inr hfolder
      · exact .inl hnone
  · have hne : init ++ [n] ≠ [] := by simp
    rcases h.item_cases hbare hne with ⟨data, hf, -⟩ | ⟨f, hf, hup, -⟩ | ⟨-, hnone⟩
    · exact absurd List.prefix_rfl (hapart _ hf).1
    · exact absurd hup (hapart f hf).2
    · exact hnone

/-- **A further file is planted**: folders are made on the way to it, and it is put there. -/
theorem Planted.snoc (h : Planted p files d d₁) (hdown : LeadsDown p init d₁ d₂)
    (hapart : ∀ g ∈ files, ¬ g.1 <+: init ++ [n] ∧ ¬ init ++ [n] <+: g.1) (data : Bytes) :
    Planted p (files ++ [(init ++ [n], data)]) d (d₂.put (p ++ (init ++ [n])) (.file data false)) := by
  have hkept {q : Place} (hq : q ≠ p ++ (init ++ [n])) (hoff : ∀ up, up <+: init → q ≠ p ++ up) :
      (d₂.put (p ++ (init ++ [n])) (.file data false)).item? q = d₁.item? q := by
    rw [item?_put_of_ne hq, hdown.other q hoff]
  refine ⟨fun f hf => ?_, fun f hf up m hup => ?_, fun q hq => ?_⟩
  · rcases List.mem_append.1 hf with hf | hf
    · obtain ⟨hover, hunder⟩ := hapart f hf
      rw [hkept, h.file f hf]
      · exact fun heq => hover (List.append_cancel_left heq ▸ List.prefix_rfl)
      · exact fun up hup heq => hover (List.append_cancel_left heq ▸ hup.trans (List.prefix_append init [n]))
    · cases List.mem_singleton.1 hf
      exact item?_put_self (by simp) _
  · -- No way leads through the new file, so a folder on a way is not in its place.
    have hne (heq : p ++ up = p ++ (init ++ [n])) : False := by
      cases List.append_cancel_left heq
      rcases List.mem_append.1 hf with hf | hf
      · exact (hapart f hf).2 ((List.prefix_append _ [m]).trans hup)
      · cases List.mem_singleton.1 hf
        simpa using hup.length_le
    by_cases hway : up <+: init
    · rw [item?_put_of_ne hne, hdown.folder up hway]
    · rcases List.mem_append.1 hf with hf | hf
      · rw [hkept hne, h.folder f hf up m hup]
        intro up' hup' heq
        exact hway (List.append_cancel_left heq ▸ hup')
      · cases List.mem_singleton.1 hf
        exact absurd (prefix_of_concat hup) hway
  · have hlast := hq _ (List.mem_append_right _ List.mem_cons_self)
    rw [hkept (hlast _ List.prefix_rfl) fun up hup => hlast up (hup.trans (List.prefix_append init [n]))]
    exact h.other q fun f hf => hq f (List.mem_append_left _ hf)

/-- **Where a whole tree was planted, the folder holds it.** -/
theorem Planted.holds {t : FileTree} (h : Planted p t.files d d₁) (hbare : d.Bare p) : d₁.Holds p t := by
  intro ns data hne
  constructor
  · intro hfile
    obtain ⟨x, hx⟩ := file?_eq_some_iff.1 hfile
    rcases h.item_cases hbare hne with ⟨data', hf, hitem⟩ | ⟨-, -, -, hitem⟩ | ⟨-, hitem⟩
    · rw [hitem] at hx
      cases hx
      exact hf
    · simp [hitem] at hx
    · simp [hitem] at hx
  · intro hf
    exact file?_eq_some_iff.2 ⟨false, h.file _ hf⟩

/-- Files are planted in any order. -/
theorem Planted.congr {files' : List (List Text × Bytes)} (h : Planted p files d d₁) (hsame : ∀ f, f ∈ files' ↔ f ∈ files) :
    Planted p files' d d₁ :=
  ⟨fun f hf => h.file f ((hsame f).1 hf), fun f hf => h.folder f ((hsame f).1 hf),
    fun q hq => h.other q fun f hf => hq f ((hsame f).2 hf)⟩

/-- Planting changes nothing but what is below the place. -/
theorem Planted.item_of_not_below (h : Planted p files d d₁) (hp : d.item? p = some .folder)
    (hnamed : ∀ f ∈ files, f.1 ≠ []) {q : Place} (hq : ¬ Below p q) : d₁.item? q = d.item? q := by
  by_cases heq : q = p
  · rw [heq, h.start hp hnamed, hp]
  · refine h.other q fun f hf up hup hplace => hq ⟨up, ?_, hplace⟩
    rintro rfl
    exact heq (by simpa using hplace)

/-- A disk grows by planting. -/
theorem Planted.grows (h : Planted p files d d₁) (hp : d.item? p = some .folder) (hbare : d.Bare p)
    (hnamed : ∀ f ∈ files, f.1 ≠ []) : Grows d d₁ := by
  constructor
  · intro q hq
    by_cases hbelow : Below p q
    · simp [hbare q hbelow] at hq
    · rw [h.item_of_not_below hp hnamed hbelow, hq]
  · intro q t
    by_cases hbelow : Below p q
    · obtain ⟨ns, hne, rfl⟩ := hbelow
      rw [hbare _ ⟨ns, hne, rfl⟩]
      rcases h.item_cases hbare hne with ⟨_, -, hitem⟩ | ⟨-, -, -, hitem⟩ | ⟨-, hitem⟩ <;> simp [hitem]
    · rw [h.item_of_not_below hp hnamed hbelow]

end

end Disk
end JavaMend
