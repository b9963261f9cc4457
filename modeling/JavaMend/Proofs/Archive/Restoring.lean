import JavaMend.Proofs.Archive.Trees

/-!
# `Proofs.Archive.Restoring` — a packed tree is restored

A tree of files is loaded from every folder that holds it as one store; the archive of the store is read back as the store;
and unpacked into an empty folder, the store makes the folder hold the tree, so that it is loaded as the store again
(`pack_unpack`). The run of unpacking goes entry by entry: the files so far are planted, so the way to the next one is
clear.

## Contents
- **Paths of entries.** `reaches_joinPath`.
- **Runs.** `makeParent_clear`, `unpackEntry_clear`, `forM_unpackEntry_clear`, `unpack_clear`; `distinct_unpack`.
- **Restoring.** `pack_unpack`, `pack_unpack_sample`.
-/

namespace JavaMend

open Text Disk Archive

variable {d d₁ : Disk} {dir p : Place} {folder : Text}

/-! ## Paths of entries -/

/-- The path of an entry leads through the folder and on by the segments of the key. -/
theorem reaches_joinPath {k : Key} (hfolder : d.find dir folder = .ok (p, .folder))
    (hnames : ∀ n ∈ Key.segments k.text, isName n = true)
    (hshort : (joinPath folder k.text).byteLength < pathLimit) :
    Reaches d dir (joinPath folder k.text) p (Key.segments k.text) := by
  obtain ⟨hpath, hwalk, -⟩ := find_folder_iff.1 hfolder
  have hnull : '\x00' ∉ k.text := by
    intro hmem
    rw [← k.isNormal] at hmem
    rcases mem_joinWith hmem with hsep | ⟨n, hn, hc⟩
    · simp at hsep
    · exact null_not_mem_of_isName (hnames n hn) hc
  obtain ⟨hnil, -⟩ | ⟨up, hup, hjoin⟩ := joinPath_cases k.isAbsolute_text folder
  · exact absurd hnil hpath.ne_nil
  · have hsub : up ⊆ folder := by
      rcases hup with rfl | rfl
      · exact List.Subset.refl _
      · exact List.subset_append_left _ _
    refine ⟨⟨by simp [hjoin], ?_, hshort⟩, ⟨components folder, ?_, ?_⟩, fun _ => ?_⟩
    · rw [hjoin]
      simp only [List.mem_append, List.mem_cons, not_or]
      exact ⟨fun hmem => hpath.noNull (hsub hmem), by decide, hnull⟩
    · rw [components_joinPath k.isAbsolute_text, k.components_text]
    · rwa [startOf_joinPath k.isAbsolute_text]
    · rw [hjoin, splitOn_append, List.getLast?_append_of_ne_nil _ (splitOn_ne_nil _ _), k.any_isIdle_last]

/-! ## Runs -/

/-- The folder of a file is made. -/
theorem makeParent_clear {path : Text} {ns : List Text} {n : Text} (hpath : Reaches d dir path p (ns ++ [n]))
    (hclear : ClearWay d p ns) : ∃ d', (makeParent dir path).on d = (.ok (), d') ∧ LeadsDown p ns d d' := by
  obtain ⟨up, hup, -, ⟨rfl, rfl⟩ | ⟨hne, hparent⟩⟩ := hpath.parent
  · exact ⟨d, by simp [makeParent, hup], .nil hclear.start⟩
  · obtain ⟨d', hmade, hdown⟩ := Disk.makeFolders_clear hparent hclear
    exact ⟨d', by simp [makeParent, hup, hne, makeFolders, hmade, Except.mapError], hdown⟩

/-- **One entry is unpacked** beside those before it. -/
theorem unpackEntry_clear {files : List (List Text × Bytes)} {e : Entry} (hfolder : d.find dir folder = .ok (p, .folder))
    (hbare : d.Bare p) (hplanted : Planted p files d d₁) (hnamed : ∀ f ∈ files, f.1 ≠ [])
    (hnames : ∀ n ∈ Key.segments e.key.text, isName n = true)
    (hshort : (joinPath folder e.key.text).byteLength < pathLimit)
    (hapart : ∀ f ∈ files, ¬ f.1 <+: e.file.1 ∧ ¬ e.file.1 <+: f.1) :
    ∃ d₂, (unpackEntry dir folder e).on d₁ = (.ok (), d₂) ∧ Planted p (files ++ [e.file]) d d₂ := by
  have hp := (find_folder_iff.1 hfolder).2.2
  have hpath := (reaches_joinPath hfolder hnames hshort).grows (hplanted.grows hp hbare hnamed)
  obtain hnil | ⟨init, n, hparts⟩ := List.eq_nil_or_concat' (Key.segments e.key.text)
  · exact absurd hnil e.key.parts_ne_nil
  · have hfile : e.file = (init ++ [n], e.content.bytes) := by rw [Entry.file, hparts]
    rw [hparts] at hpath hnames
    rw [hfile] at hapart ⊢
    obtain ⟨hclear, hnone⟩ := hplanted.clearWay hp hbare hnamed hnames hapart
    obtain ⟨d₂, hmade, hdown⟩ := makeParent_clear hpath hclear
    -- Making the parent touches only places above the file, so its own place is still free.
    have hnone₂ : d₂.item? (p ++ (init ++ [n])) = none := by
      rw [hdown.other _ fun up hup heq => ?_, hnone]
      have hlength := hup.length_le
      rw [← List.append_cancel_left heq, List.length_append, List.length_singleton] at hlength
      omega
    have hwritten := writeFile_clear (hpath.grows (hdown.grows hclear)) hnames hdown.folder hnone₂ e.content.bytes
    refine ⟨_, ?_, hplanted.snoc hdown hapart e.content.bytes⟩
    simp only [unpackEntry, Action.on_bind, hmade, writeFile, Action.on_mapFault, Action.on_change, hwritten,
      Except.mapError]

/-- **Entries are unpacked one after the other**, as long as none is where another one leads through. -/
theorem forM_unpackEntry_clear (done rest : List Entry) (hfolder : d.find dir folder = .ok (p, .folder))
    (hbare : d.Bare p) (hplanted : Planted p (done.map Entry.file) d d₁)
    (hnames : ∀ e ∈ rest, ∀ n ∈ Key.segments e.key.text, isName n = true)
    (hshort : ∀ e ∈ rest, (joinPath folder e.key.text).byteLength < pathLimit)
    (hapart : ((done ++ rest).map Entry.file).Pairwise fun f g => ¬ f.1 <+: g.1 ∧ ¬ g.1 <+: f.1) :
    ∃ d₂, (forM rest (unpackEntry dir folder)).on d₁ = (.ok (), d₂)
      ∧ Planted p ((done ++ rest).map Entry.file) d d₂ := by
  -- The invariant of the run: what is done so far is planted.
  induction rest generalizing done d₁ with
  | nil => exact ⟨d₁, rfl, by simpa using hplanted⟩
  | cons e rest ih =>
    obtain ⟨hname, hnames⟩ := List.forall_mem_cons.1 hnames
    obtain ⟨hlength, hshort⟩ := List.forall_mem_cons.1 hshort
    have hnamed : ∀ f ∈ done.map Entry.file, f.1 ≠ [] := by
      intro f hf
      obtain ⟨e', -, rfl⟩ := List.mem_map.1 hf
      exact e'.key.parts_ne_nil
    have hfirst : ∀ f ∈ done.map Entry.file, ¬ f.1 <+: e.file.1 ∧ ¬ e.file.1 <+: f.1 := by
      rw [List.map_append, List.pairwise_append] at hapart
      exact fun f hf => hapart.2.2 f hf e.file (by simp)
    obtain ⟨d₂, hentry, hplanted₂⟩ := unpackEntry_clear hfolder hbare hplanted hnamed hname hlength hfirst
    obtain ⟨d₃, hrest, hplanted₃⟩ := ih (done ++ [e]) (by simpa using hplanted₂) hnames hshort
      (by simpa using hapart)
    refine ⟨d₃, ?_, by simpa using hplanted₃⟩
    rw [List.forM_cons, Action.on_bind, hentry]
    exact hrest

/-- **A store whose entries are a tree is unpacked** into an empty folder, and the tree is planted there. -/
theorem unpack_clear {s : Store} {t : FileTree} (hs : s.files.Perm t.files)
    (hfolder : d.find dir folder = .ok (p, .folder)) (hbare : d.Bare p)
    (hshort : ∀ f ∈ t.files, (joinPath folder (entryPath f.1)).byteLength < pathLimit) :
    ∃ d', (unpack dir folder s).on d = (.ok t.files.length, d') ∧ Planted p t.files d d' := by
  have hmem {e : Entry} (he : e ∈ s.entries) : e.file ∈ t.files := hs.mem_iff.1 (List.mem_map_of_mem he)
  have hsize : s.size = t.files.length := by rw [← hs.length_eq, Store.files, List.length_map, Store.size]
  obtain ⟨d', hrun, hplanted⟩ := forM_unpackEntry_clear [] s.entries hfolder hbare
    (.nil p d) (fun e he => (t.named e.file (hmem he)).2)
    (fun e he => entryPath_segments e.key ▸ hshort e.file (hmem he)) (t.reorder hs).pairwise_apart
  refine ⟨d', ?_, hplanted.congr fun f => hs.symm.mem_iff⟩
  simp only [unpack_eq, Action.on_bind, makeFolders, Action.on_mapFault, Disk.makeFolders_of_find hfolder, Except.mapError,
    hrun, Action.on_pure, hsize]

/-! ## Distinct places -/

/-- A disk that lists no place twice leads to another one. -/
abbrev KeepsDistinct (d d' : Disk) : Prop := d.Distinct → d'.Distinct

theorem keepsDistinct_bind {ε α β : Type} {a : Action ε α} {f : α → Action ε β} {d : Disk}
    (ha : KeepsDistinct d (a.on d).2) (hf : ∀ x d', KeepsDistinct d' ((f x).on d').2) :
    KeepsDistinct d ((a >>= f).on d).2 :=
  related_bind (R := KeepsDistinct) (fun h h' => h' ∘ h) ha hf

theorem distinct_writeFile {d' : Disk} {path : Text} {data : Bytes} (h : d.writeFile dir path data = .ok d') :
    KeepsDistinct d d' := by
  intro hd
  cases htarget : d.targetOf dir path with
  | error e => simp [Disk.writeFile, htarget, bind, Except.bind] at h
  | ok q =>
    rw [writeFile_eq (targetOf_eq_ok_iff.1 htarget)] at h
    rcases writeAt_ok h with ⟨-, -, rfl⟩ | ⟨-, -, x, rfl⟩
    · exact hd
    · exact distinct_put hd _ _

theorem distinct_unpackEntry (e : Entry) (d : Disk) : KeepsDistinct d ((unpackEntry dir folder e).on d).2 := by
  refine keepsDistinct_bind ?_ fun _ d' => ?_
  · unfold makeParent
    split
    · split
      · exact id
      · exact distinct_makeFolders
    · exact id
  · simp only [writeFile, Action.on_mapFault, Action.on_change]
    split
    · rename_i hwritten
      exact distinct_writeFile hwritten
    · exact id

/-- **Unpacking lists no place twice**, however it ends. -/
theorem distinct_unpack (s : Store) (d : Disk) : KeepsDistinct d ((unpack dir folder s).on d).2 := by
  rw [unpack_eq]
  refine keepsDistinct_bind distinct_makeFolders fun _ d => keepsDistinct_bind ?_ fun _ _ => id
  induction s.entries generalizing d with
  | nil => exact id
  | cons e es ih =>
    rw [List.forM_cons]
    exact keepsDistinct_bind (distinct_unpackEntry e d) fun _ => ih

/-! ## Restoring -/

/-- The archive of the tree's store has a length that can be stated. -/
def FileTree.Fits (t : FileTree) : Prop := t.archiveLength + 1 < Nat.pow 2 64

instance (t : FileTree) : Decidable t.Fits := inferInstanceAs (Decidable (_ < _))

/-- **Packing and unpacking restore a tree.** A tree that can be packed is loaded as one store from every folder that holds
    it. With a codec that unpacks what it packs, that store is read from its archive, and loaded from the file to which it
    was saved. Unpacked into an empty folder, it makes the folder hold the tree, with everything else as it was; and the
    folder is loaded as that store again. -/
theorem pack_unpack (c : Codec) (hc : ∀ b, b.length + 1 < Nat.pow 2 64 → c.Undoes b) (t : FileTree) (ht : t.Packable)
    (hfits : t.Fits) : ∃ s : Store,
    (∀ d dir path p, d.Distinct → d.find dir path = .ok (p, .folder) → d.Holds p t → c.load d dir path = .ok s)
      ∧ c.read (c.write s) = .ok s
      ∧ (∀ dir path d d', (c.save dir path s).on d = (.ok (), d') → c.load d' dir path = .ok s)
      ∧ ∀ d dir folder p, d.find dir folder = .ok (p, .folder) → d.Bare p →
          (∀ f ∈ t.files, (joinPath folder (entryPath f.1)).byteLength < pathLimit) →
          ∃ d', (unpack dir folder s).on d = (.ok t.files.length, d') ∧ d'.Holds p t
            ∧ (∀ q, ¬ Below p q → d'.item? q = d.item? q) ∧ (d.Distinct → c.load d' dir folder = .ok s) := by
  obtain ⟨s, hs⟩ := ht.loads
  have hload {d : Disk} {dir p : Place} {path : Text} (hd : d.Distinct) (hfind : d.find dir path = .ok (p, .folder))
      (hholds : d.Holds p t) : c.load d dir path = .ok s := by
    simp only [Codec.load, hfind, loadFolder_of_holds ht hs hd hholds]
  have hlength : Archive.Fits s := by
    unfold Archive.Fits
    rw [hs.length_encode ht]
    exact hfits
  have hround := c.load_save s (hc _ hlength) hlength.countable
  refine ⟨s, fun d dir path p => hload, hround.1, hround.2.1, fun d dir folder p hfolder hbare hshort => ?_⟩
  obtain ⟨d', hrun, hplanted⟩ := unpack_clear (hs.files_perm ht) hfolder hbare hshort
  have hnamed : ∀ f ∈ t.files, f.1 ≠ [] := fun f hf => (t.named f hf).1
  obtain ⟨hpath, hwalk, hp⟩ := find_folder_iff.1 hfolder
  have hgrows := hplanted.grows hp hbare hnamed
  refine ⟨d', hrun, hplanted.holds hbare, fun q => hplanted.item_of_not_below hp hnamed, fun hd => ?_⟩
  -- The folder is still found where it was, since unpacking only adds to the disk.
  have hdistinct : d'.Distinct := by
    have hkept : ((unpack dir folder s).on d).2.Distinct := distinct_unpack s d hd
    rwa [hrun] at hkept
  exact hload hdistinct (find_folder_iff.2 ⟨hpath, hgrows.walk hwalk, hgrows.folder hp⟩) (hplanted.holds hbare)

/-- A tree with a source and a resource. -/
def sampleTree : FileTree where
  files := [([text "net", text "A.java"], utf8 (text "class A {}\n")), ([text "net", text "icon"], [0x89, 0x50])]
  nodup := by decide
  named := by decide
  apart := by decide

/-- A disk with the sample tree in a folder. -/
def sampleDisk : Disk :=
  ⟨[([text "src"], .folder), ([text "src", text "net"], .folder),
    ([text "src", text "net", text "A.java"], .file (utf8 (text "class A {}\n")) false),
    ([text "src", text "net", text "icon"], .file [0x89, 0x50] true)]⟩

theorem packable_sampleTree : sampleTree.Packable := by
  refine ⟨by decide, by decide +kernel, fun f hf => ?_⟩
  rintro ⟨ns, -, heq⟩
  have hfirst : f.1.head? = some (text "net") := by
    rcases List.mem_cons.1 hf with rfl | hf
    · rfl
    · rw [List.mem_singleton.1 hf]
      rfl
  rw [heq] at hfirst
  exact absurd (Option.some.inj hfirst) (by decide)

theorem holds_sampleDisk : sampleDisk.Holds [text "src"] sampleTree := by
  intro ns data hne
  rw [file?_eq_some_iff]
  simp only [item?_eq_some_iff (d := sampleDisk) (by decide) (q := [text "src"] ++ ns) (by simp)]
  simp [sampleDisk, sampleTree]

/-- The sample tree is packed from one disk and restored on an empty one. -/
theorem pack_unpack_sample : ∃ (s : Store) (d : Disk),
    Codec.stored.load sampleDisk [] (text "src") = .ok s ∧ Codec.stored.read (Codec.stored.write s) = .ok s
      ∧ (unpack [] (text ".") s).on Disk.empty = (.ok 2, d) ∧ d.Holds [] sampleTree
      ∧ Codec.stored.load d [] (text ".") = .ok s := by
  obtain ⟨s, hload, hread, -, hunpack⟩ := pack_unpack Codec.stored (fun b hb => undoes_stored hb) sampleTree
    packable_sampleTree (by decide +kernel)
  have hbare : Disk.empty.Bare [] := by
    rintro q ⟨ns, hne, rfl⟩
    simp [item?, Disk.empty, hne]
  obtain ⟨d, hrun, hholds, -, hagain⟩ := hunpack Disk.empty [] (text ".") [] (by decide +kernel) hbare (by decide +kernel)
  exact ⟨s, d, hload sampleDisk [] (text "src") [text "src"] (by decide) (by decide +kernel) holds_sampleDisk, hread, hrun,
    hholds, hagain (by decide)⟩

end JavaMend
