import JavaMend.Proofs.Archive.Loading

/-!
# `Proofs.Archive.Acceptance` — which archives are read

Reading accepts an archive exactly if it opens with its mark, carries a manifest, and the manifest is valid; the store
then holds the entries of the manifest and nothing else, and every other input is refused (`Codec.read_accepts`). The
packed bytes are unpacked no further than the reader of the manifest asks, so a fault behind the manifest, such as a
wrong checksum, does not show (`not_acceptsWhole_wrongChecksum`).

## Contents
- **Bytes as texts.** `ofUtf8?_eq_some_iff`.
- **Gathering.** `Store.Gathers`; `Store.insertAll_spec`, `Store.insertAll_empty_eq_ok_iff`.
- **Entries.** `ManifestEntry.content_eq_ok_iff`, `foldlM_addEntry_eq_ok_iff`.
- **Manifests.** `Manifest.Valid`, `Store.HoldsEntries`; `Manifest.toStore_eq_ok_iff`.
- **Archives.** `Codec.manifest?`, `Codec.content?`; `Codec.read_accepts`, `not_acceptsWhole_wrongChecksum`.
-/

namespace JavaMend

open Text

/-! ## Bytes as texts -/

/-- Bytes are read as the text of which they are the UTF-8 form. -/
theorem Text.ofUtf8?_eq_some_iff {b : Bytes} {t : Text} : ofUtf8? b = some t ↔ utf8 t = b := by
  constructor
  · intro h
    obtain ⟨cs, hcs, rfl⟩ := Option.map_eq_some_iff.1 h
    have hsome : b.toByteArray.utf8Decode?.isSome := by simp [hcs]
    have hback := ByteArray.utf8Encode_get_utf8Decode? (h := hsome)
    have hget : b.toByteArray.utf8Decode?.get hsome = cs := by simp [hcs]
    rw [hget] at hback
    have hbytes : (utf8 cs.toList).toByteArray = b.toByteArray := hback
    simpa using congrArg (fun a => a.data.toList) hbytes
  · rintro rfl
    exact ofUtf8?_utf8 t

/-! ## Gathering -/

namespace Store

/-- Stores are equal if the same contents are found in them. -/
theorem ext_content {a b : Store} (h : ∀ k c, a.find? k = some ⟨k, c⟩ ↔ b.find? k = some ⟨k, c⟩) : a = b := by
  refine ext_find? fun k => Option.ext fun e => ?_
  constructor
  · intro he
    cases key_of_find? he
    exact (h _ _).1 he
  · intro he
    cases key_of_find? he
    exact (h _ _).2 he

/-- The store holds the given contents under their paths, and nothing else. -/
def Gathers (s : Store) (es : List (Text × Content)) : Prop :=
  ∀ k c, s.find? k = some ⟨k, c⟩ ↔ ∃ path, (path, c) ∈ es ∧ Key.ofPath? path = some k

/-- There is only one store that holds the contents. -/
theorem Gathers.unique {s s' : Store} {es : List (Text × Content)} (h : s.Gathers es) (h' : s'.Gathers es) : s = s' :=
  ext_content fun k c => (h k c).trans (h' k c).symm

/-- The first of the contents is what is set, and the others come after it. -/
theorem find?_set_or_mem_iff {s : Store} {k : Key} {path : Text} (hk : Key.ofPath? path = some k)
    (hfree : s.find? k = none) (c : Content) (es : List (Text × Content)) (l : Key) (c' : Content) :
    ((s.set k c).find? l = some ⟨l, c'⟩ ∨ ∃ p, (p, c') ∈ es ∧ Key.ofPath? p = some l) ↔
      (s.find? l = some ⟨l, c'⟩ ∨ ∃ p, (p, c') ∈ (path, c) :: es ∧ Key.ofPath? p = some l) := by
  have hset : (s.set k c).find? l = some ⟨l, c'⟩ ↔ l = k ∧ c' = c ∨ s.find? l = some ⟨l, c'⟩ := by
    by_cases hl : l = k
    · subst hl
      rw [find?_set_self, hfree]
      simp [eq_comm]
    · rw [find?_set_of_ne hl]
      simp [hl]
  rw [hset]
  simp only [List.mem_cons, Prod.mk.injEq]
  constructor
  · rintro ((⟨rfl, rfl⟩ | h) | ⟨p, hp, hl⟩)
    · exact .inr ⟨path, .inl ⟨rfl, rfl⟩, hk⟩
    · exact .inl h
    · exact .inr ⟨p, .inr hp, hl⟩
  · rintro (h | ⟨p, ⟨rfl, rfl⟩ | hp, hl⟩)
    · exact .inl (.inr h)
    · exact .inl (.inl ⟨Option.some.inj (hl.symm.trans hk), rfl⟩)
    · exact .inr ⟨p, hp, hl⟩

/-- **What was added**: contents whose paths have keys, all of them different and free before; the store holds them
    beside what it held. -/
theorem insertAll_spec {s₀ s : Store} {es : List (Text × Content)} (h : s₀.insertAll es = .ok s) :
    (∀ e ∈ es, ∃ k, Key.ofPath? e.1 = some k ∧ s₀.find? k = none) ∧ (es.map fun e => Key.normalize e.1).Nodup
      ∧ ∀ k c, s.find? k = some ⟨k, c⟩ ↔
          s₀.find? k = some ⟨k, c⟩ ∨ ∃ path, (path, c) ∈ es ∧ Key.ofPath? path = some k := by
  induction es generalizing s₀ with
  | nil =>
    cases h
    simp
  | cons e es ih =>
    obtain ⟨path, c⟩ := e
    rw [insertAll_cons, bind_eq_ok] at h
    obtain ⟨s₁, hfirst, hrest⟩ := h
    obtain ⟨k, hk, hfree, rfl⟩ := insert_eq_ok.1 hfirst
    obtain ⟨hkeys, hnodup, hheld⟩ := ih hrest
    -- A later key is free after the first one was set, so it is another one and was free before.
    have hlater : ∀ e ∈ es, ∃ l, Key.ofPath? e.1 = some l ∧ l ≠ k ∧ s₀.find? l = none := by
      intro e he
      obtain ⟨l, hl, hlfree⟩ := hkeys e he
      have hne : l ≠ k := by
        rintro rfl
        rw [find?_set_self] at hlfree
        cases hlfree
      exact ⟨l, hl, hne, by rwa [find?_set_of_ne hne] at hlfree⟩
    rw [List.map_cons, List.nodup_cons]
    refine ⟨List.forall_mem_cons.2 ⟨⟨k, hk, hfree⟩, fun e he => ?_⟩, ⟨fun hmem => ?_, hnodup⟩, fun l c' => ?_⟩
    · obtain ⟨l, hl, -, hlfree⟩ := hlater e he
      exact ⟨l, hl, hlfree⟩
    · obtain ⟨e, he, hsame⟩ := List.mem_map.1 hmem
      obtain ⟨l, hl, hne, -⟩ := hlater e he
      rw [Key.ofPath?_congr hsame] at hl
      exact hne (Option.some.inj (hl.symm.trans hk))
    · rw [hheld, find?_set_or_mem_iff hk hfree]

/-- Contents can be added if their paths have keys, all of them different and free before. -/
theorem exists_insertAll {s₀ : Store} {es : List (Text × Content)}
    (hkeys : ∀ e ∈ es, ∃ k, Key.ofPath? e.1 = some k ∧ s₀.find? k = none)
    (hnodup : (es.map fun e => Key.normalize e.1).Nodup) : ∃ s, s₀.insertAll es = .ok s := by
  induction es generalizing s₀ with
  | nil => exact ⟨s₀, rfl⟩
  | cons e es ih =>
    obtain ⟨path, c⟩ := e
    obtain ⟨⟨k, hk, hfree⟩, hkeys⟩ := List.forall_mem_cons.1 hkeys
    obtain ⟨hnot, hnodup⟩ := List.nodup_cons.1 hnodup
    have hlater : ∀ e ∈ es, ∃ l, Key.ofPath? e.1 = some l ∧ (s₀.set k c).find? l = none := by
      intro e he
      obtain ⟨l, hl, hlfree⟩ := hkeys e he
      have hne : l ≠ k := by
        rintro rfl
        refine hnot (List.mem_map.2 ⟨e, he, ?_⟩)
        exact (Key.text_of_ofPath? hl).symm.trans (Key.text_of_ofPath? hk)
      exact ⟨l, hl, by rwa [find?_set_of_ne hne]⟩
    obtain ⟨s, hs⟩ := ih hlater hnodup
    exact ⟨s, bind_eq_ok.2 ⟨s₀.set k c, insert_eq_ok.2 ⟨k, hk, hfree, rfl⟩, hs⟩⟩

theorem exists_ofPath?_iff {path : Text} : (∃ k, Key.ofPath? path = some k) ↔ Key.normalize path ≠ [] := by
  rw [← Option.ne_none_iff_exists']
  exact not_congr Key.ofPath?_eq_none

/-- **A store can be gathered from contents** exactly if their paths have normal forms, all of them different. -/
theorem exists_insertAll_empty_iff {es : List (Text × Content)} :
    (∃ s, empty.insertAll es = .ok s) ↔
      (∀ e ∈ es, Key.normalize e.1 ≠ []) ∧ (es.map fun e => Key.normalize e.1).Nodup := by
  constructor
  · rintro ⟨s, hs⟩
    obtain ⟨hkeys, hnodup, -⟩ := insertAll_spec hs
    exact ⟨fun e he => exists_ofPath?_iff.1 ((hkeys e he).imp fun k hk => hk.1), hnodup⟩
  · rintro ⟨hnamed, hnodup⟩
    exact exists_insertAll (fun e he => (exists_ofPath?_iff.2 (hnamed e he)).imp fun k hk => ⟨hk, rfl⟩) hnodup

/-- The store that is gathered holds the contents and nothing else. -/
theorem insertAll_empty_eq_ok_iff {s : Store} {es : List (Text × Content)} :
    empty.insertAll es = .ok s ↔ (∃ s, empty.insertAll es = .ok s) ∧ s.Gathers es := by
  have hgathers {s' : Store} (h : empty.insertAll es = .ok s') : s'.Gathers es := by
    intro k c
    rw [(insertAll_spec h).2.2 k c]
    simp
  constructor
  · exact fun h => ⟨⟨s, h⟩, hgathers h⟩
  · rintro ⟨⟨s', hs'⟩, hs⟩
    rw [hs', (hgathers hs').unique hs]

end Store

namespace Archive

/-! ## Entries -/

/-- An entry stands for the content of its kind with its bytes. -/
theorem ManifestEntry.content_eq_ok_iff {e : ManifestEntry} {c : Content} :
    e.content = .ok c ↔ e.isSource = c.isSource ∧ e.data = c.bytes := by
  obtain ⟨path, isSource, data, digest⟩ := e
  unfold ManifestEntry.content
  cases isSource with
  | false =>
    cases c with
    | source t => simp [Content.isSource]
    | resource d => simp [Content.isSource, Content.bytes]
  | true =>
    simp only [if_true]
    split
    · rename_i t ht
      rw [ofUtf8?_eq_some_iff] at ht
      cases c with
      | source u =>
        simp only [Except.ok.injEq, Content.source.injEq, Content.isSource, Content.bytes, true_and, ← ht]
        exact ⟨congrArg utf8, utf8_injective⟩
      | resource d => simp [Content.isSource]
    · rename_i hnone
      cases c with
      | source u =>
        have hne : data ≠ utf8 u := by
          rintro rfl
          rw [ofUtf8?_utf8] at hnone
          cases hnone
        simp [Content.isSource, Content.bytes, hne]
      | resource d => simp [Content.isSource]

/-- An entry has a content unless it is a source and no text. -/
theorem ManifestEntry.exists_content_iff {e : ManifestEntry} :
    (∃ c, e.content = .ok c) ↔ (e.isSource = true → (ofUtf8? e.data).isSome) := by
  unfold ManifestEntry.content
  cases e.isSource with
  | false => simp
  | true =>
    cases ofUtf8? e.data with
    | none => simp
    | some t => simp

/-- An entry of a manifest with its content. -/
def ManifestEntry.item (e : ManifestEntry) : Except ReadError (Text × Content) := do
  return (e.path, ← e.content)

theorem ManifestEntry.item_eq_ok_iff {e : ManifestEntry} {path : Text} {c : Content} :
    e.item = .ok (path, c) ↔ e.path = path ∧ e.content = .ok c := by
  simp only [item, bind_eq_ok, pure_eq_ok, Prod.mk.injEq]
  constructor
  · rintro ⟨c', hc', rfl, rfl⟩
    exact ⟨rfl, hc'⟩
  · rintro ⟨rfl, hc⟩
    exact ⟨c, hc, rfl, rfl⟩

theorem addEntry_eq_ok_iff {s s' : Store} {e : ManifestEntry} :
    addEntry s e = .ok s' ↔ ∃ item, e.item = .ok item ∧ s.insert item.1 item.2 = .ok s' := by
  simp only [addEntry, bind_eq_ok, mapError_eq_ok, Prod.exists, ManifestEntry.item_eq_ok_iff]
  constructor
  · rintro ⟨c, hc, hinsert⟩
    exact ⟨e.path, c, ⟨rfl, hc⟩, hinsert⟩
  · rintro ⟨-, c, ⟨rfl, hc⟩, hinsert⟩
    exact ⟨c, hc, hinsert⟩

/-- The entries of a manifest are added one by one exactly if all of them have contents and these can be added. -/
theorem foldlM_addEntry_eq_ok_iff {s₀ s : Store} {es : List ManifestEntry} :
    es.foldlM addEntry s₀ = .ok s ↔ ∃ items, es.mapM ManifestEntry.item = .ok items ∧ s₀.insertAll items = .ok s := by
  induction es generalizing s₀ with
  | nil =>
    have hnil : s₀.insertAll [] = .ok s₀ := rfl
    simp [pure_eq_ok, hnil]
  | cons e es ih =>
    simp only [List.foldlM_cons, bind_eq_ok, addEntry_eq_ok_iff, ih, mapM_cons_eq_ok]
    constructor
    · rintro ⟨s₁, ⟨item, hitem, hfirst⟩, items, hitems, hrest⟩
      exact ⟨item :: items, ⟨item, hitem, items, hitems, rfl⟩, bind_eq_ok.2 ⟨s₁, hfirst, hrest⟩⟩
    · rintro ⟨-, ⟨item, hitem, items, hitems, rfl⟩, hadded⟩
      obtain ⟨s₁, hfirst, hrest⟩ := bind_eq_ok.1 hadded
      exact ⟨s₁, ⟨item, hitem, hfirst⟩, items, hitems, hrest⟩

/-! ## Manifests -/

/-- **What makes a manifest valid.** -/
structure Manifest.Valid (m : Manifest) : Prop where
  version : m.version = formatVersion
  digests : ∀ e ∈ m.entries, blake3 e.data = e.digest
  texts : ∀ e ∈ m.entries, e.isSource = true → (ofUtf8? e.data).isSome
  named : ∀ e ∈ m.entries, Key.normalize e.path ≠ []
  distinct : (m.entries.map fun e => Key.normalize e.path).Nodup

end Archive

open Archive

/-- The store holds exactly the entries of the manifest: each under its normal path, of its kind and with its bytes. -/
def Store.HoldsEntries (s : Store) (m : Manifest) : Prop :=
  ∀ k c, s.find? k = some ⟨k, c⟩ ↔
    ∃ e ∈ m.entries, Key.normalize e.path = k.text ∧ e.isSource = c.isSource ∧ e.data = c.bytes

namespace Archive

theorem checkDigests_eq_ok_iff {es : List ManifestEntry} :
    checkDigests es = .ok () ↔ ∀ e ∈ es, blake3 e.data = e.digest := by
  unfold checkDigests
  split
  · rename_i e hfind
    have hbad := List.find?_some hfind
    simp only [reduceCtorEq, false_iff, not_forall]
    exact ⟨e, List.mem_of_find?_eq_some hfind, by simpa using hbad⟩
  · rename_i hfind
    simpa using hfind

/-- A path denotes a key exactly if the key is its normal form. -/
theorem ofPath?_eq_some_iff {path : Text} {k : Key} : Key.ofPath? path = some k ↔ Key.normalize path = k.text := by
  constructor
  · intro h
    exact (Key.text_of_ofPath? h).symm
  · intro h
    rw [Key.ofPath?_congr (h.trans k.isNormal.symm), Key.ofPath?_text]

/-- A manifest is read step by step: the version, all digests, and then the entries one by one. -/
theorem toStore_eq_ok {m : Manifest} {s : Store} : m.toStore = .ok s ↔
    m.version = formatVersion ∧ checkDigests m.entries = .ok () ∧ m.entries.foldlM addEntry Store.empty = .ok s := by
  unfold Manifest.toStore
  by_cases hversion : m.version = formatVersion
  · simp only [hversion, ne_eq, not_true_eq_false, if_false, true_and]
    rw [bind_eq_ok]
    exact ⟨fun ⟨_, h⟩ => h, fun h => ⟨(), h⟩⟩
  · simp [hversion, bind_eq_ok, throw_ne_ok]

/-- The contents of entries are gathered exactly if the normal paths of the entries are named and distinct; the store
    then holds the entries. -/
theorem insertAll_items_iff {m : Manifest} {items : List (Text × Content)}
    (hitems : m.entries.mapM ManifestEntry.item = .ok items) :
    ((∃ s, Store.empty.insertAll items = .ok s) ↔
        (∀ e ∈ m.entries, Key.normalize e.path ≠ []) ∧ (m.entries.map fun e => Key.normalize e.path).Nodup)
      ∧ ∀ s : Store, s.Gathers items ↔ s.HoldsEntries m := by
  have hpaths : (items.map fun i => Key.normalize i.1) = m.entries.map fun e => Key.normalize e.path :=
    map_mapM (fun e i hi => by rw [(ManifestEntry.item_eq_ok_iff.1 hi).1]) hitems
  have hnamed : (∀ i ∈ items, Key.normalize i.1 ≠ []) ↔ ∀ e ∈ m.entries, Key.normalize e.path ≠ [] := by
    rw [← List.forall_mem_map (P := (· ≠ [])), hpaths, List.forall_mem_map]
  refine ⟨by rw [Store.exists_insertAll_empty_iff, hpaths, hnamed], fun s => ?_⟩
  unfold Store.Gathers Store.HoldsEntries
  simp only [mem_mapM_iff hitems, ManifestEntry.item_eq_ok_iff, ManifestEntry.content_eq_ok_iff, ofPath?_eq_some_iff]
  refine forall_congr' fun k => forall_congr' fun c => iff_congr Iff.rfl ?_
  constructor
  · rintro ⟨-, ⟨e, he, rfl, hkind⟩, hk⟩
    exact ⟨e, he, hk, hkind⟩
  · rintro ⟨e, he, hk, hkind⟩
    exact ⟨e.path, ⟨e, he, rfl, hkind⟩, hk⟩

/-- All entries have contents exactly if the sources among them are texts. -/
theorem exists_items_iff {es : List ManifestEntry} : (∃ items, es.mapM ManifestEntry.item = .ok items) ↔
    ∀ e ∈ es, e.isSource = true → (ofUtf8? e.data).isSome := by
  rw [exists_mapM_eq_ok_iff]
  refine forall₂_congr fun e _ => ?_
  rw [← ManifestEntry.exists_content_iff]
  simp [ManifestEntry.item_eq_ok_iff]

/-- **A manifest stands for a store** exactly if it is valid. -/
theorem Manifest.exists_toStore_iff {m : Manifest} : (∃ s, m.toStore = .ok s) ↔ m.Valid := by
  simp only [toStore_eq_ok, checkDigests_eq_ok_iff, foldlM_addEntry_eq_ok_iff]
  constructor
  · rintro ⟨s, hversion, hdigests, items, hitems, hadded⟩
    obtain ⟨hnamed, hdistinct⟩ := (insertAll_items_iff hitems).1.1 ⟨s, hadded⟩
    exact ⟨hversion, hdigests, exists_items_iff.1 ⟨items, hitems⟩, hnamed, hdistinct⟩
  · intro hvalid
    obtain ⟨items, hitems⟩ := exists_items_iff.2 hvalid.texts
    obtain ⟨s, hadded⟩ := (insertAll_items_iff hitems).1.2 ⟨hvalid.named, hvalid.distinct⟩
    exact ⟨s, hvalid.version, hvalid.digests, items, hitems, hadded⟩

/-- **The store of a valid manifest** is the one that holds its entries. -/
theorem Manifest.toStore_eq_ok_iff {m : Manifest} {s : Store} : m.toStore = .ok s ↔ m.Valid ∧ s.HoldsEntries m := by
  have hheld {s' : Store} (h : m.toStore = .ok s') : ∃ items, (∀ s : Store, s.Gathers items ↔ s.HoldsEntries m)
      ∧ s'.Gathers items := by
    obtain ⟨-, -, hfold⟩ := toStore_eq_ok.1 h
    obtain ⟨items, hitems, hadded⟩ := foldlM_addEntry_eq_ok_iff.1 hfold
    exact ⟨items, (insertAll_items_iff hitems).2, (Store.insertAll_empty_eq_ok_iff.1 hadded).2⟩
  constructor
  · intro h
    obtain ⟨items, hiff, hs⟩ := hheld h
    exact ⟨Manifest.exists_toStore_iff.1 ⟨s, h⟩, (hiff s).1 hs⟩
  · rintro ⟨hvalid, hs⟩
    obtain ⟨s', h⟩ := Manifest.exists_toStore_iff.2 hvalid
    obtain ⟨items, hiff, hs'⟩ := hheld h
    rw [h, hs'.unique ((hiff s).2 hs)]

/-! ## Archives -/

/-- The manifest that packed bytes carry: what is unpacked before any fault, as far as a reader of the manifest asks
    for it. -/
def Codec.manifest? (c : Codec) (packed : Bytes) : Option Manifest :=
  match takeManifest? (c.unpack packed).pieces.flatten with
  | some (m, rest) => if (c.unpack packed).suffices rest m.lastAsked then some m else none
  | none           => none

/-- What packed bytes are unpacked to, if that meets no fault up to their end. -/
def Codec.content? (c : Codec) (packed : Bytes) : Option Bytes :=
  if (c.unpack packed).broken then none else some (c.unpack packed).pieces.flatten

theorem Codec.read_eq_ok_iff {c : Codec} {b : Bytes} {s : Store} : c.read b = .ok s ↔
    ∃ packed m, b = magic ++ packed ∧ c.manifest? packed = some m ∧ m.toStore = .ok s := by
  have hpacked {packed : Bytes} : b = magic ++ packed ↔ b.take magic.length = magic ∧ b.drop magic.length = packed := by
    constructor
    · rintro rfl
      simp
    · rintro ⟨hmark, rfl⟩
      conv_lhs => rw [← List.take_append_drop magic.length b, hmark]
  simp only [hpacked]
  unfold Codec.read
  split
  · rename_i hmark
    simp only [hmark, true_and, exists_and_left, exists_eq_left', Codec.manifest?]
    split
    · split <;> simp_all
    · simp_all
  · rename_i hmark
    simp [hmark]

/-- **Reading accepts exactly the valid archives**: those with the mark, a manifest that the packed bytes carry, and that
    is valid. The store then holds the entries of the manifest, and any other input is refused. Where unpacking meets no
    fault, the manifest is what the whole content opens with. -/
theorem Codec.read_accepts (c : Codec) (b : Bytes) :
    (∀ s, c.read b = .ok s ↔
        ∃ packed m, b = magic ++ packed ∧ c.manifest? packed = some m ∧ m.Valid ∧ s.HoldsEntries m)
      ∧ ((∃ s, c.read b = .ok s) ↔ ∃ packed m, b = magic ++ packed ∧ c.manifest? packed = some m ∧ m.Valid)
      ∧ ((∃ e, c.read b = .error e) ↔ ¬ ∃ packed m, b = magic ++ packed ∧ c.manifest? packed = some m ∧ m.Valid)
      ∧ ∀ packed content, c.content? packed = some content →
          c.manifest? packed = (takeManifest? content).map Prod.fst := by
  have haccepts : (∃ s, c.read b = .ok s) ↔
      ∃ packed m, b = magic ++ packed ∧ c.manifest? packed = some m ∧ m.Valid := by
    simp only [Codec.read_eq_ok_iff, ← Manifest.exists_toStore_iff]
    constructor
    · rintro ⟨s, packed, m, hb, hm, hs⟩
      exact ⟨packed, m, hb, hm, s, hs⟩
    · rintro ⟨packed, m, hb, hm, s, hs⟩
      exact ⟨s, packed, m, hb, hm, hs⟩
  refine ⟨fun s => by simp only [Codec.read_eq_ok_iff, Manifest.toStore_eq_ok_iff], haccepts, ?_, ?_⟩
  · rw [← haccepts]
    cases c.read b with
    | error e => simp
    | ok s => simp
  · intro packed content h
    unfold Codec.content? at h
    split at h
    · cases h
    · rename_i hbroken
      cases h
      unfold Codec.manifest?
      split
      · rename_i m rest hm
        simp [Decoded.suffices, hbroken, hm]
      · rename_i hm
        simp [hm]

/-- Reading accepts exactly what is unpacked without fault to its end and opens with a valid manifest. -/
def Codec.AcceptsWhole (c : Codec) : Prop :=
  ∀ b s, c.read b = .ok s ↔ ∃ packed content m rest, b = magic ++ packed ∧ c.content? packed = some content
    ∧ takeManifest? content = some (m, rest) ∧ m.Valid ∧ s.HoldsEntries m

/-- A frame that holds a manifest and ten more bytes, and ends with a wrong checksum: it is read all the same. -/
theorem not_acceptsWhole_wrongChecksum : ¬ Codec.stored.AcceptsWhole := by
  let s := (Store.empty.insertAll [(text "net/A.java", .source (text "class A {}\n"))]).toOption.getD Store.empty
  let packed := frameMagic ++ [0x24, 0x5F, 0xF9, 0x02, 0x00] ++ (Manifest.ofStore s).encode
    ++ utf8 (text "tail bytes") ++ [0, 0, 0, 0]
  intro h
  have hread : Codec.stored.read (magic ++ packed) = .ok s := by decide +kernel
  have hbroken : Codec.stored.content? packed = none := by decide +kernel
  obtain ⟨packed', content, m, rest, hb, hcontent, -⟩ := (h _ _).1 hread
  rw [← List.append_cancel_left hb, hbroken] at hcontent
  cases hcontent

end Archive
end JavaMend
