import JavaMend.Proofs.Archive.Acceptance
import JavaMend.Proofs.Archive.Unpacking
import JavaMend.Proofs.Disk.FileTrees

/-!
# `Proofs.Archive.Trees` — trees of files as stores

A tree can be packed if the names in it have no backslashes, its sources are texts, and it has nothing in `META-INF`. Then
there is one store of it, which every folder that holds the tree is loaded as (`loadFolder_of_holds`); its entries are the
files of the tree (`FileTree.LoadsAs.files_perm`), and the length of its manifest is told from them
(`FileTree.LoadsAs.length_encode`).

## Contents
- **Paths of files.** `segments_entryPath`, `not_startsWith_manifest`, `endsWith_last`.
- **Files as entries.** `entryOfFile_eq_ok`.
- **Trees as stores.** `FileTree.Packable`, `FileTree.LoadsAs`; `FileTree.Packable.loads`, `loadFolder_of_holds`.
- **Stores as trees.** `Store.files`; `FileTree.LoadsAs.files_perm`.
- **Lengths.** `FileTree.archiveLength`; `FileTree.LoadsAs.length_encode`.
-/

namespace JavaMend

open Text Disk Archive

/-! ## Paths of files -/

section
variable {ns : List Text}

theorem entryPath_of_plain (h : ∀ n ∈ ns, '\\' ∉ n) : entryPath ns = joinWith ['/'] ns := by
  refine Key.map_slash_of_not_mem fun hmem => ?_
  rcases mem_joinWith hmem with hsep | ⟨n, hn, hc⟩
  · simp at hsep
  · exact h n hn hc

/-- Proper segments are read back from the path that they make. -/
theorem segments_entryPath (h : ∀ n ∈ ns, Key.isProper n = true ∧ '/' ∉ n ∧ '\\' ∉ n) :
    Key.segments (entryPath ns) = ns := by
  rw [entryPath_of_plain fun n hn => (h n hn).2.2]
  exact Key.segments_joinWith h

/-- The path of a key is made of its segments. -/
theorem entryPath_segments (k : Key) : entryPath (Key.segments k.text) = k.text := by
  rw [entryPath_of_plain fun n hn => (Key.mem_segments hn).2.2]
  exact k.isNormal

theorem isProper_of_isName {n : Text} (h : isName n = true) : Key.isProper n = true := by
  have hidle := not_isIdle_of_isName h
  simp only [isIdle, Bool.or_eq_false_iff] at hidle
  simp [Key.isProper, hidle.1, ne_dot_of_isName h]

/-- Names without backslashes make segments. -/
theorem segments_of_isName (hnames : ∀ n ∈ ns, isName n = true) (hplain : ∀ n ∈ ns, '\\' ∉ n) :
    Key.segments (entryPath ns) = ns :=
  segments_entryPath fun n hn =>
    ⟨isProper_of_isName (hnames n hn), slash_not_mem_of_isName (hnames n hn), hplain n hn⟩

/-- What is not below a folder has no path that starts with it. -/
theorem not_startsWith_of_not_below {folder : Text} (hne : ns ≠ []) (hslash : ∀ n ∈ ns, '/' ∉ n) (hfolder : '/' ∉ folder)
    (h : ¬ Below [folder] ns) : startsWith (folder ++ ['/']) (joinWith ['/'] ns) = false := by
  by_contra hstarts
  rw [Bool.not_eq_false] at hstarts
  obtain ⟨rest, hrest⟩ := Option.isSome_iff_exists.1 hstarts
  rw [dropPrefix?_eq_some, List.append_assoc, List.singleton_append] at hrest
  refine h ⟨splitOn '/' rest, splitOn_ne_nil '/' rest, ?_⟩
  rw [List.singleton_append, ← splitOn_append_sep hfolder, ← hrest, splitOn_joinWith hne hslash]

theorem joinWith_concat {sep last : Text} (hne : ns ≠ []) :
    joinWith sep (ns ++ [last]) = joinWith sep ns ++ sep ++ last := by
  induction ns with
  | nil => exact absurd rfl hne
  | cons n ns ih =>
    cases ns with
    | nil => rfl
    | cons m ns =>
      have hrest := ih (by simp)
      simp only [List.cons_append, joinWith] at hrest ⊢
      rw [hrest]
      simp

/-- An ending without a slash is that of the last name. -/
theorem endsWith_last {ending last : Text} (hslash : '/' ∉ ending)
    (h : endsWith ending (joinWith ['/'] (ns ++ [last])) = true) : endsWith ending last = true := by
  have hends (t : Text) : endsWith ending t = true ↔ ending <:+ t := by
    simp only [endsWith, Option.isSome_iff_exists, dropSuffix?_eq_some]
    exact ⟨fun ⟨r, hr⟩ => ⟨r, hr.symm⟩, fun ⟨r, hr⟩ => ⟨r, hr.symm⟩⟩
  rw [hends] at h ⊢
  by_cases hne : ns = []
  · simpa [hne, joinWith] using h
  · rw [joinWith_concat hne, List.append_assoc] at h
    -- The ending does not reach back to the slash before the last name.
    rcases List.suffix_or_suffix_of_suffix h (List.suffix_append _ _) with hshort | hlong
    · rcases List.suffix_cons_iff.1 hshort with heq | hlast
      · exact absurd (heq ▸ List.mem_cons_self) hslash
      · exact hlast
    · exact absurd (hlong.subset (by simp)) hslash

end

/-! ## Files as entries -/

theorem entryOfFile_eq_ok {f : List Text × Bytes} {path : Text} {c : Content} (h : entryOfFile f = .ok (path, c)) :
    path = entryPath f.1 ∧ c.bytes = f.2 := by
  unfold entryOfFile at h
  simp only at h
  split at h
  · split at h
    · rename_i t ht
      cases h
      exact ⟨rfl, ofUtf8?_eq_some_iff.1 ht⟩
    · cases h
  · cases h
    exact ⟨rfl, rfl⟩

theorem exists_entryOfFile {f : List Text × Bytes}
    (h : endsWith (text ".java") (entryPath f.1) = true → (ofUtf8? f.2).isSome) : ∃ item, entryOfFile f = .ok item := by
  unfold entryOfFile
  simp only
  split
  · rename_i hsource
    obtain ⟨t, ht⟩ := Option.isSome_iff_exists.1 (h hsource)
    exact ⟨_, by rw [ht]⟩
  · exact ⟨_, rfl⟩

/-! ## Trees as stores -/

/-- **A tree that can be packed**: no name has a backslash, sources are texts, and there is nothing in `META-INF`. -/
structure FileTree.Packable (t : FileTree) : Prop where
  plain : ∀ f ∈ t.files, ∀ n ∈ f.1, '\\' ∉ n
  texts : ∀ f ∈ t.files, ∀ n ∈ f.1.getLast?, endsWith (text ".java") n = true → (ofUtf8? f.2).isSome
  noManifest : ∀ f ∈ t.files, ¬ Below [text "META-INF"] f.1

/-- **The store of a tree**: its files are entries, added one after the other. -/
def FileTree.LoadsAs (t : FileTree) (s : Store) : Prop :=
  ∃ items, t.files.mapM entryOfFile = .ok items ∧ Store.empty.insertAll items = .ok s

section
variable {t : FileTree} {s : Store}

theorem FileTree.Packable.segments (h : t.Packable) {f : List Text × Bytes} (hf : f ∈ t.files) :
    Key.segments (entryPath f.1) = f.1 :=
  segments_of_isName (t.named f hf).2 (h.plain f hf)

theorem FileTree.Packable.segments_normalize (h : t.Packable) {f : List Text × Bytes} (hf : f ∈ t.files) :
    Key.segments (Key.normalize (entryPath f.1)) = f.1 := by
  rw [Key.segments_normalize, h.segments hf]

theorem FileTree.Packable.normalize_ne_nil (h : t.Packable) {f : List Text × Bytes} (hf : f ∈ t.files) :
    Key.normalize (entryPath f.1) ≠ [] := by
  intro hnil
  have hempty := h.segments_normalize hf
  rw [hnil] at hempty
  exact (t.named f hf).1 hempty.symm

theorem FileTree.Packable.exists_entryOfFile (h : t.Packable) {f : List Text × Bytes} (hf : f ∈ t.files) :
    ∃ item, entryOfFile f = .ok item := by
  refine JavaMend.exists_entryOfFile fun hsource => ?_
  obtain hnil | ⟨init, last, heq⟩ := List.eq_nil_or_concat' f.1
  · exact absurd hnil (t.named f hf).1
  · rw [entryPath_of_plain (h.plain f hf), heq] at hsource
    exact h.texts f hf last (by simp [heq]) (endsWith_last (by decide) hsource)

/-- **Every tree that can be packed has a store.** -/
theorem FileTree.Packable.loads (h : t.Packable) : ∃ s, t.LoadsAs s := by
  obtain ⟨items, hitems⟩ := exists_mapM_eq_ok_iff.2 fun f hf => h.exists_entryOfFile hf
  have hpaths : (items.map fun i => Key.normalize i.1) = t.files.map fun f => Key.normalize (entryPath f.1) :=
    map_mapM (fun f i hi => by rw [(entryOfFile_eq_ok hi).1]) hitems
  have hadded : ∃ s, Store.empty.insertAll items = .ok s := by
    refine Store.exists_insertAll_empty_iff.2 ⟨?_, ?_⟩
    · rw [← List.forall_mem_map (P := (· ≠ [])), hpaths, List.forall_mem_map]
      exact fun f hf => h.normalize_ne_nil hf
    · rw [hpaths]
      refine t.nodup.map_on fun f hf g hg hsame => ?_
      have hpath : f.1 = g.1 := by rw [← h.segments_normalize hf, hsame, h.segments_normalize hg]
      exact t.apart f hf g hg (hpath ▸ List.prefix_rfl)
  obtain ⟨s, hs⟩ := hadded
  exact ⟨s, items, hitems, hs⟩

theorem foldlM_mapError_insert {s₀ s : Store} {items : List (Text × Content)} (h : s₀.insertAll items = .ok s) :
    items.foldlM (fun s (path, content) => (s.insert path content).mapError FileFault.store) s₀ = .ok s := by
  induction items generalizing s₀ with
  | nil =>
    cases h
    rfl
  | cons item items ih =>
    rw [Store.insertAll_cons, bind_eq_ok] at h
    obtain ⟨s₁, hfirst, hrest⟩ := h
    rw [List.foldlM_cons, bind_eq_ok]
    exact ⟨s₁, mapError_eq_ok.2 hfirst, ih hrest⟩

/-- **A folder that holds the tree is loaded as its store.** -/
theorem loadFolder_of_holds {d : Disk} {p : Place} (ht : t.Packable) (hs : t.LoadsAs s) (hd : d.Distinct)
    (hholds : d.Holds p t) : loadFolder d p = .ok s := by
  have hperm := hholds.filesBelow_perm hd
  have hall : (d.filesBelow p).filter (fun file => !startsWith (text "META-INF/") (entryPath file.1)) = d.filesBelow p := by
    refine List.filter_eq_self.2 fun f hf => ?_
    have hmem := hperm.mem_iff.1 hf
    have hoff := not_startsWith_of_not_below (t.named f hmem).1
      (fun n hn => slash_not_mem_of_isName ((t.named f hmem).2 n hn)) (by decide) (ht.noManifest f hmem)
    rw [entryPath_of_plain (ht.plain f hmem), Bool.not_eq_true']
    exact hoff
  obtain ⟨items, hitems, hadded⟩ := hs
  obtain ⟨items', hitems', hsame⟩ := mapM_perm hperm.symm hitems
  unfold loadFolder
  rw [hall]
  exact bind_eq_ok.2 ⟨items', hitems', foldlM_mapError_insert (Store.insertAll_perm hsame hadded)⟩

/-! ## Stores as trees -/

/-- The file that an entry stands for. -/
def Entry.file (e : Entry) : List Text × Bytes := (Key.segments e.key.text, e.content.bytes)

/-- The files that the entries of a store stand for. -/
def Store.files (s : Store) : List (List Text × Bytes) := s.entries.map Entry.file

/-- **The entries of a tree's store are the files of the tree.** -/
theorem FileTree.LoadsAs.files_perm (hs : t.LoadsAs s) (ht : t.Packable) : s.files.Perm t.files := by
  obtain ⟨items, hitems, hadded⟩ := hs
  have hgathers := (Store.insertAll_empty_eq_ok_iff.1 hadded).2
  have hnodup : s.files.Nodup := by
    refine s.nodup_keys.of_map.map_on fun e he e' he' hsame => List.inj_on_of_nodup_map s.nodup_keys he he' (Key.ext ?_)
    rw [← entryPath_segments e.key, (Prod.mk.inj hsame).1, entryPath_segments]
  refine (List.perm_ext_iff_of_nodup hnodup t.nodup).2 fun f => ?_
  simp only [Store.files, Entry.file, List.mem_map]
  constructor
  · rintro ⟨e, he, rfl⟩
    obtain ⟨path, hmem, hk⟩ := (hgathers e.key e.content).1 (Store.find?_eq_some_iff.2 ⟨he, rfl⟩)
    obtain ⟨f, hf, hitem⟩ := (mem_mapM_iff hitems).1 hmem
    obtain ⟨rfl, hbytes⟩ := entryOfFile_eq_ok hitem
    rw [Key.text_of_ofPath? hk, ht.segments_normalize hf, hbytes]
    exact hf
  · intro hf
    obtain ⟨⟨path, c⟩, hitem⟩ := ht.exists_entryOfFile hf
    obtain ⟨rfl, hbytes⟩ := entryOfFile_eq_ok hitem
    obtain ⟨k, hk⟩ := Store.exists_ofPath?_iff.2 (ht.normalize_ne_nil hf)
    have hmem := (hgathers k c).2 ⟨_, (mem_mapM_iff hitems).2 ⟨f, hf, hitem⟩, hk⟩
    refine ⟨⟨k, c⟩, (Store.find?_eq_some_iff.1 hmem).1, Prod.ext ?_ hbytes⟩
    rw [Key.text_of_ofPath? hk, ht.segments_normalize hf]

/-! ## Lengths -/

/-- The length of the manifest of the tree's store: for each file its path and its bytes, and 52 bytes for lengths, kind
    and digest. -/
def FileTree.archiveLength (t : FileTree) : Nat :=
  t.files.foldr (fun f n => 52 + (utf8 (entryPath f.1)).length + f.2.length + n) 12

theorem length_encode_ofEntry (e : Entry) :
    (ManifestEntry.ofEntry e).encode.length = 52 + (utf8 e.key.text).length + e.content.bytes.length := by
  simp only [ManifestEntry.encode, ManifestEntry.ofEntry, sized, List.length_append, length_littleEndian, length_blake3]
  omega

theorem FileTree.LoadsAs.length_encode (hs : t.LoadsAs s) (ht : t.Packable) :
    (Manifest.ofStore s).encode.length = t.archiveLength := by
  obtain ⟨es, hentries, hperm⟩ := entries_ofStore s
  have hfiles := ((hs.files_perm ht).map fun f => 52 + (utf8 (entryPath f.1)).length + f.2.length).sum_nat
  simp only [Store.files, Entry.file, List.map_map, Function.comp_def, entryPath_segments] at hfiles
  have hbodies : ((Manifest.ofStore s).entries.flatMap ManifestEntry.encode).length =
      (s.entries.map fun e => 52 + (utf8 e.key.text).length + e.content.bytes.length).sum := by
    rw [hentries, List.length_flatMap, List.map_map, ← (hperm.map _).sum_nat]
    simp only [Function.comp_def, length_encode_ofEntry]
  have hsum (files : List (List Text × Bytes)) :
      files.foldr (fun f n => 52 + (utf8 (entryPath f.1)).length + f.2.length + n) 12 =
        12 + (files.map fun f => 52 + (utf8 (entryPath f.1)).length + f.2.length).sum := by
    induction files with
    | nil => rfl
    | cons f files ih =>
      rw [List.foldr_cons, ih, List.map_cons, List.sum_cons]
      omega
  simp only [Manifest.encode, List.length_append, length_littleEndian, hbodies, hfiles, FileTree.archiveLength, hsum]

end

end JavaMend
