import JavaMend.Archive.Container
import JavaMend.Proofs.Stores
import Mathlib.Algebra.BigOperators.Group.List.Basic
import Mathlib.Data.List.Perm.Basic

/-!
# `Proofs.Archive.RoundTrip` — archives are read as they were written

Every layer of an archive is read back: the blocks of a frame, the frame, the numbers, texts and entries of a manifest,
and at last the store, whose entries the manifest lists in an order of its own. The proofs follow the layers, each with
the bytes that come after it left open. Numbers are written with a fixed width, so all that is asked of the store is
that its lengths fit into it (`Countable`), and all that is asked of the codec is that it unpacks what it packs
(`Codec.Undoes`), as frames of stored blocks do for every manifest whose length they can state (`Fits`).

## Contents
- **Parts.** `flatten_partsOf`, `mem_partsOf`.
- **Digests.** `length_blake3`.
- **Frames.** `blocks_stored`, `blocks_storedBlocks`, `frameHeader`, `frameContent_frame`.
- **Manifests.** `ManifestEntry.Writable`, `takeEntry?_encode`, `takeManifest?_encode`.
- **Stores.** `foldlM_addEntry`, `toStore_ofStore`; `Countable`, `takeManifest?_ofStore`.
- **Archives.** `Codec.Undoes`, `Codec.read_write`; `Fits`, `read_write`.
-/

namespace JavaMend.Archive

open JavaMend Text

/-! ## Parts -/

theorem flatten_partsOf {α : Type} (n : Nat) (l : List α) : (partsOf n l).flatten = l := by
  fun_induction partsOf n l with
  | case1 => rfl
  | case2 x l ih => simp [ih]

/-- Parts are not empty and no longer than asked for. -/
theorem mem_partsOf {α : Type} {n : Nat} {l p : List α} (h : p ∈ partsOf n l) : p ≠ [] ∧ p.length ≤ n + 1 := by
  fun_induction partsOf n l with
  | case1 => cases h
  | case2 x l ih =>
    rcases List.mem_cons.1 h with rfl | h
    · exact ⟨List.cons_ne_nil x _, Nat.succ_le_succ (List.length_take_le n l)⟩
    · exact ih h

/-! ## Digests -/

theorem size_mix (s : Array UInt32) (a b c d : Nat) (x y : UInt32) : (mix s a b c d x y).size = s.size := by
  simp [mix]

theorem size_round (s m : Array UInt32) : (round s m).size = s.size := by
  unfold round
  generalize places.zipIdx = ps
  induction ps generalizing s with
  | nil => rfl
  | cons p ps ih => rw [List.foldl_cons, ih, size_mix]

theorem size_rounds (n : Nat) (s m : Array UInt32) : (rounds n s m).size = s.size := by
  induction n generalizing s m with
  | zero => rfl
  | succ n ih => rw [rounds, ih, size_round]

/-- A node is compressed to as many words as its chaining value has. -/
theorem length_compress {n : Node} (h : n.chain.length = 8) (flags : UInt32) : (n.compress flags).length = 8 := by
  simp [Node.compress, size_rounds, h, iv]

theorem length_chain_blocksNode {chain : List UInt32} (h : chain.length = 8) (counter : Nat) (first : UInt32)
    (bs : List Bytes) : (blocksNode counter chain first bs).chain.length = 8 := by
  fun_induction blocksNode counter chain first bs with
  | case1 => exact h
  | case2 => exact h
  | case3 chain first b bs _ node ih => exact ih (length_compress h 0)

theorem length_chain_pairUp {ns : List Node} (h : ∀ n ∈ ns, n.chain.length = 8) :
    ∀ n ∈ pairUp ns, n.chain.length = 8 := by
  fun_induction pairUp ns with
  | case1 a b ns ih =>
    simp only [List.mem_cons, forall_eq_or_imp] at h ⊢
    exact ⟨rfl, ih h.2.2⟩
  | case2 => exact h

theorem length_chain_rootNode {ns : List Node} (h : ∀ n ∈ ns, n.chain.length = 8) : (rootNode ns).chain.length = 8 := by
  fun_induction rootNode ns with
  | case1 => exact length_chain_blocksNode rfl _ _ _
  | case2 n => exact h n (by simp)
  | case3 a b ns ih => exact ih (length_chain_pairUp h)

theorem length_bytesOf (ws : List UInt32) : (bytesOf ws).length = 4 * ws.length := by
  induction ws with
  | nil => rfl
  | cons w ws ih =>
    simp only [bytesOf, List.flatMap_cons, List.length_append] at ih ⊢
    simp only [ih, List.length_cons, List.length_nil]
    omega

/-- A digest has 32 bytes. -/
theorem length_blake3 (b : Bytes) : (blake3 b).length = 32 := by
  unfold blake3
  rw [length_bytesOf, length_compress (length_chain_rootNode fun n hn => ?_)]
  obtain ⟨chunk, -, rfl⟩ := List.mem_map.1 hn
  exact length_chain_blocksNode rfl _ _ _

/-! ## Frames -/

/-- A stored block is read back. -/
theorem blocks_stored {h : FrameHeader} {limit : Option Nat} {seen : Nat} {p : Bytes} (hp : p ≠ [])
    (hlen : p.length ≤ h.maxBlock) (hfit : p.length ≤ Nat.pow 2 17) (hlimit : limit.any (· < seen + p.length) = false)
    (last : Bool) (rest : Bytes) :
    blocks h limit seen (littleEndian 3 (8 * p.length + last.toNat) ++ (p ++ rest)) =
      if last then
        if h.contentSize.all (· == seen + p.length) then .after p ⟨[], false, some rest⟩ else .fault
      else .after p (blocks h limit (seen + p.length) rest) := by
  have hpos : 0 < p.length := List.length_pos_iff.2 hp
  have hlast : last.toNat < 2 := by cases last <;> decide
  simp only [littleEndian, List.cons_append, List.nil_append]
  rw [blocks]
  have hheader : (UInt8.ofNat (8 * p.length + last.toNat)).toNat
      + 256 * (UInt8.ofNat ((8 * p.length + last.toNat) / 256)).toNat
      + 65536 * (UInt8.ofNat ((8 * p.length + last.toNat) / 256 / 256)).toNat = 8 * p.length + last.toNat := by
    have : p.length ≤ 131072 := hfit
    simp only [UInt8.toNat_ofNat']
    omega
  simp only [hheader]
  have hsize : (8 * p.length + last.toNat) / 8 = p.length := by omega
  have hkind : (8 * p.length + last.toNat) / 2 % 4 = 0 := by omega
  have hmod : ((8 * p.length + last.toNat) % 2 == 1) = last := by cases last <;> simp <;> omega
  have hkept : ¬ p.length + rest.length < p.length := by omega
  simp [hsize, hkind, hmod, hkept, hlimit, hp, Nat.not_lt.2 hlen]

/-- **Stored blocks are read back** if the header allows their length. -/
theorem blocks_storedBlocks {h : FrameHeader} {limit : Option Nat} {seen total : Nat} {ps : List Bytes}
    (hps : ∀ p ∈ ps, p ≠ [] ∧ p.length ≤ Nat.pow 2 17) (hmax : Nat.pow 2 17 ≤ h.maxBlock)
    (hlimit : ∀ n ∈ limit, total ≤ n) (hsize : ∀ n ∈ h.contentSize, n = total)
    (htotal : seen + ps.flatten.length = total) (rest : Bytes) :
    blocks h limit seen (storedBlocks ps ++ rest) = ⟨ps, false, some rest⟩ := by
  induction ps generalizing seen with
  | nil => simp [storedBlocks, littleEndian, blocks]
  | cons p ps ih =>
    obtain ⟨hp, hfit⟩ := hps p List.mem_cons_self
    rw [List.flatten_cons, List.length_append, ← Nat.add_assoc] at htotal
    have hroom : limit.any (· < seen + p.length) = false := by
      rw [Option.any_eq_false]
      intro n hn
      have hle := hlimit n hn
      simpa using (by omega : seen + p.length ≤ n)
    have hfirst (last : Bool) (rest : Bytes) :=
      blocks_stored hp (Nat.le_trans hfit hmax) hfit hroom last rest
    cases ps with
    | nil =>
      have htotal : seen + p.length = total := htotal
      have hall : h.contentSize.all (· == seen + p.length) = true := by
        rw [Option.all_eq_true]
        intro n hn
        simp [hsize n hn, htotal]
      simpa [storedBlocks, hall, BlockRun.after, hp] using hfirst true rest
    | cons q ps =>
      have hrest := ih (fun r hr => hps r (List.mem_cons_of_mem p hr)) htotal
      simpa [storedBlocks, BlockRun.after, hp, hrest] using hfirst false (storedBlocks (q :: ps) ++ rest)

theorem takeNumber?_zero (b : Bytes) : takeNumber? 0 b = some (0, b) := rfl

theorem takeNumber?_one (x : UInt8) (b : Bytes) : takeNumber? 1 (x :: b) = some (x.toNat, b) := rfl

/-- The header of a frame that is written for content of length `n`. -/
def frameHeader (n : Nat) : FrameHeader := ⟨some n, Nat.pow 2 17, Nat.pow 2 17, false⟩

theorem frameHeader?_frame {n : Nat} (h : n + 1 < Nat.pow 2 64) (rest : Bytes) :
    frameHeader? (0xC0 :: 0x38 :: (littleEndian 8 n ++ rest)) = some (frameHeader n, rest) := by
  have hsize : takeNumber? 8 (littleEndian 8 n ++ rest) = some (n, rest) :=
    takeNumber?_append (Nat.lt_of_succ_lt h) rest
  have hknown : n ≠ 18446744073709551615 := fun hn => Nat.ne_of_lt h (congrArg (· + 1) hn)
  simp only [frameHeader?, takeNumber?_one, Option.bind_eq_bind, Option.bind_some]
  simp [fieldLength, takeNumber?_zero, hsize, maxWindow, hknown, frameHeader]

theorem framesContent_nil (fuel : Nat) (buffers : Buffers) : framesContent fuel buffers [] = ⟨[], false⟩ := by
  cases fuel <;> rfl

/-- **The content of a frame is read back**, without faults. -/
theorem frameContent_frame {content : Bytes} (h : content.length + 1 < Nat.pow 2 64) :
    frameContent (frame content) = ⟨partsOf (Nat.pow 2 17 - 1) content, false⟩ := by
  have hmark : (frame content).take 4 = frameMagic := by simp [frame, frameMagic]
  have hrest : (frame content).drop 4 =
      0xC0 :: 0x38 :: (littleEndian 8 content.length ++ storedBlocks (partsOf (Nat.pow 2 17 - 1) content)) := by
    simp [frame, frameMagic]
  have hblocks (b : Buffers) :
      blocks (frameHeader content.length) ((frameHeader content.length).limit? b) 0
        (storedBlocks (partsOf (Nat.pow 2 17 - 1) content)) =
          ⟨partsOf (Nat.pow 2 17 - 1) content, false, some []⟩ := by
    have hlimit : ∀ n ∈ (frameHeader content.length).limit? b, content.length ≤ n := by
      intro n hn
      have hn : n ∈ some content.length := (Option.mem_filter_iff.1 hn).1
      exact Nat.le_of_eq (Option.some.inj hn)
    have htotal : 0 + (partsOf (Nat.pow 2 17 - 1) content).flatten.length = content.length := by
      rw [flatten_partsOf, Nat.zero_add]
    have hread := blocks_storedBlocks (h := frameHeader content.length) (fun p hp => mem_partsOf hp) (Nat.le_refl _)
      hlimit (fun n hn => (Option.some.inj hn).symm) htotal []
    rwa [List.append_nil] at hread
  unfold frameContent
  rw [framesContent, if_pos hmark, hrest, frameHeader?_frame h]
  simp only [hblocks]
  simp [framesContent_nil, frameHeader]

/-! ## Manifests -/

/-- The entry can be written: its numbers fit, and its digest has the length of one. -/
structure ManifestEntry.Writable (e : ManifestEntry) : Prop where
  path : (utf8 e.path).length < Nat.pow 2 64
  data : e.data.length < Nat.pow 2 64
  digest : e.digest.length = 32

theorem takeSized?_append {b : Bytes} (h : b.length < Nat.pow 2 64) (rest : Bytes) :
    takeSized? (sized b ++ rest) = some (b, rest) := by
  have hlength : takeNumber? 8 (littleEndian 8 b.length ++ (b ++ rest)) = some (b.length, b ++ rest) :=
    takeNumber?_append h (b ++ rest)
  simp [takeSized?, sized, hlength, takeBytes?_append]

theorem takeEntry?_encode {e : ManifestEntry} (h : e.Writable) (rest : Bytes) :
    takeEntry? (e.encode ++ rest) = some (e, rest) := by
  have hfits : (if e.isSource then 0 else 1) < Nat.pow 256 4 := by split <;> decide
  have hkind := takeNumber?_append hfits (sized e.data ++ (e.digest ++ rest))
  have hdigest := takeBytes?_append e.digest rest
  rw [h.digest] at hdigest
  simp only [ManifestEntry.encode, List.append_assoc, takeEntry?, takeSized?_append h.path, ofUtf8?_utf8, hkind,
    Option.bind_eq_bind, Option.bind_some, takeSized?_append h.data]
  cases hsource : e.isSource <;> simp [hdigest, ← hsource]

theorem takeEntries?_encode {es : List ManifestEntry} (h : ∀ e ∈ es, e.Writable) (rest : Bytes) :
    takeEntries? es.length (es.flatMap ManifestEntry.encode ++ rest) = some (es, rest) := by
  induction es with
  | nil => rfl
  | cons e es ih =>
    have he := takeEntry?_encode (h e List.mem_cons_self) (es.flatMap ManifestEntry.encode ++ rest)
    simp [takeEntries?, he, ih fun e' he' => h e' (List.mem_cons_of_mem e he')]

/-- **A manifest is read back** if its numbers fit. -/
theorem takeManifest?_encode {m : Manifest} (hversion : m.version < Nat.pow 256 4)
    (hcount : m.entries.length < Nat.pow 256 8) (h : ∀ e ∈ m.entries, e.Writable) :
    takeManifest? m.encode = some (m, []) := by
  have hentries := takeEntries?_encode h []
  have hfirst := takeNumber?_append hversion (littleEndian 8 m.entries.length ++ m.entries.flatMap ManifestEntry.encode)
  have hsecond := takeNumber?_append hcount (m.entries.flatMap ManifestEntry.encode)
  rw [List.append_nil] at hentries
  simp [takeManifest?, Manifest.encode, hfirst, hsecond, hentries]

/-- The paths and data of a manifest are short enough, and few enough, if all of them together are not too long. -/
theorem writable_of_length {es : List ManifestEntry} (hlength : (es.flatMap ManifestEntry.encode).length < Nat.pow 2 64) :
    (∀ e ∈ es, (utf8 e.path).length < Nat.pow 2 64 ∧ e.data.length < Nat.pow 2 64) ∧ es.length < Nat.pow 2 64 := by
  have hencode (e : ManifestEntry) : e.encode.length = 20 + (utf8 e.path).length + e.data.length + e.digest.length := by
    simp [ManifestEntry.encode, sized]
    omega
  refine ⟨fun e he => ?_, ?_⟩
  · have hle : e.encode.length ≤ (es.flatMap ManifestEntry.encode).length :=
      (List.sublist_flatten_of_mem (List.mem_map_of_mem he)).length_le
    rw [hencode] at hle
    exact ⟨by omega, by omega⟩
  · refine Nat.lt_of_le_of_lt ?_ hlength
    have hone : ∀ n ∈ es.map fun e => e.encode.length, 1 ≤ n := by
      intro n hn
      obtain ⟨e, -, rfl⟩ := List.mem_map.1 hn
      rw [hencode]
      omega
    simpa [List.length_flatMap] using List.length_le_sum_of_one_le _ hone

/-! ## Stores -/

theorem content_ofEntry (e : Entry) : (ManifestEntry.ofEntry e).content = .ok e.content := by
  obtain ⟨k, t | data⟩ := e
  · simp [ManifestEntry.content, ManifestEntry.ofEntry, Content.isSource, Content.bytes, ofUtf8?_utf8]
  · rfl

/-- An entry whose key is free is added as it was. -/
theorem addEntry_ofEntry {s : Store} {e : Entry} (h : s.find? e.key = none) :
    addEntry s (ManifestEntry.ofEntry e) = .ok (s.set e.key e.content) := by
  have hinsert : s.insert e.key.text e.content = .ok (s.set e.key e.content) := by
    simp [Store.insert, Key.ofPath?_text, h]
  simp only [addEntry, content_ofEntry]
  show (s.insert e.key.text e.content).mapError _ = _
  rw [hinsert]
  rfl

/-- Adding entries with different keys gives a store that holds them. -/
theorem foldlM_addEntry {es : List Entry} {s : Store} (hkeys : (es.map Entry.key).Nodup)
    (hfree : ∀ e ∈ es, s.find? e.key = none) :
    ∃ s', (es.map ManifestEntry.ofEntry).foldlM addEntry s = .ok s'
      ∧ ∀ k, s'.find? k = (findKey? k es).or (s.find? k) := by
  induction es generalizing s with
  | nil => exact ⟨s, rfl, fun k => rfl⟩
  | cons e es ih =>
    rw [List.map_cons, List.nodup_cons] at hkeys
    have hother {e' : Entry} (he' : e' ∈ es) : e'.key ≠ e.key := fun h => hkeys.1 (h ▸ List.mem_map_of_mem he')
    have hfree' : ∀ e' ∈ es, (s.set e.key e.content).find? e'.key = none := by
      intro e' he'
      rw [Store.find?_set_of_ne (hother he')]
      exact hfree e' (List.mem_cons_of_mem e he')
    obtain ⟨s', hs', hfind⟩ := ih hkeys.2 hfree'
    refine ⟨s', ?_, fun k => ?_⟩
    · rw [List.map_cons, List.foldlM_cons, addEntry_ofEntry (hfree e List.mem_cons_self)]
      exact hs'
    · rw [hfind]
      by_cases hk : k = e.key
      · subst hk
        rw [findKey?_eq_none_iff.2 fun e' he' => hother he', findKey?_cons_self, Store.find?_set_self]
        rfl
      · rw [Store.find?_set_of_ne hk, findKey?_cons_of_ne hk]

/-- The manifest of a store lists its entries, in another order. -/
theorem entries_ofStore (s : Store) :
    ∃ es : List Entry, (Manifest.ofStore s).entries = es.map ManifestEntry.ofEntry ∧ es.Perm s.entries := by
  refine ⟨_, rfl, ?_⟩
  have hparts := List.filter_append_perm (fun e : Entry => e.content.isSource) s.entries
  exact List.perm_append_comm.trans hparts

/-- **The manifest of a store stands for the store.** -/
theorem toStore_ofStore (s : Store) : (Manifest.ofStore s).toStore = .ok s := by
  obtain ⟨es, hentries, hperm⟩ := entries_ofStore s
  have hkeys : (es.map Entry.key).Nodup := (hperm.map Entry.key).nodup_iff.2 s.nodup_keys
  have hdigests : checkDigests (es.map ManifestEntry.ofEntry) = .ok () := by
    have hnone : (es.map ManifestEntry.ofEntry).find? (fun e => blake3 e.data != e.digest) = none := by
      rw [List.find?_map, Option.map_eq_none_iff, List.find?_eq_none]
      simp [ManifestEntry.ofEntry]
    rw [checkDigests, hnone]
  obtain ⟨s', hread, hfind⟩ := foldlM_addEntry hkeys fun e _ => (rfl : Store.empty.find? e.key = none)
  have hsame : s' = s := by
    refine Store.ext_find? fun k => ?_
    rw [hfind, Store.find?_empty, Option.or_none]
    exact Option.ext fun e => by rw [findKey?_eq_some_iff hkeys, hperm.mem_iff, Store.find?_eq_some_iff]
  simp only [Manifest.toStore, hentries]
  show (do checkDigests _; _) = _
  rw [hdigests]
  exact hsame ▸ hread

/-- Every length that a manifest states of the store fits into a machine word, as all lengths in memory do. -/
structure Countable (s : Store) : Prop where
  entries : s.entries.length < Nat.pow 2 64
  keys : ∀ e ∈ s.entries, (utf8 e.key.text).length < Nat.pow 2 64
  contents : ∀ e ∈ s.entries, e.content.bytes.length < Nat.pow 2 64

/-- The manifest of a countable store is read back. -/
theorem takeManifest?_ofStore {s : Store} (h : Countable s) :
    takeManifest? (Manifest.ofStore s).encode = some (Manifest.ofStore s, []) := by
  obtain ⟨es, hentries, hperm⟩ := entries_ofStore s
  have hversion : (Manifest.ofStore s).version < Nat.pow 256 4 := show 1 < Nat.pow 256 4 by decide
  refine takeManifest?_encode hversion ?_ ?_
  · rw [hentries, List.length_map, hperm.length_eq]
    exact h.entries
  · rw [hentries]
    intro written hwritten
    obtain ⟨e, he, rfl⟩ := List.mem_map.1 hwritten
    have hmem := hperm.mem_iff.1 he
    exact ⟨h.keys e hmem, h.contents e hmem, by simp only [ManifestEntry.ofEntry, length_blake3]⟩

/-! ## Archives -/

/-- Packed bytes are unpacked without a fault. -/
structure Codec.Undoes (c : Codec) (b : Bytes) : Prop where
  content : (c.unpack (c.pack b)).pieces.flatten = b
  unbroken : (c.unpack (c.pack b)).broken = false

theorem undoes_stored {b : Bytes} (h : b.length + 1 < Nat.pow 2 64) : Codec.stored.Undoes b := by
  have hframe : Codec.stored.unpack (Codec.stored.pack b) = ⟨partsOf (Nat.pow 2 17 - 1) b, false⟩ := frameContent_frame h
  exact ⟨by rw [hframe, flatten_partsOf], by rw [hframe]⟩

/-- **Reading undoes writing**, with every codec that unpacks what it packs. -/
theorem Codec.read_write {c : Codec} {s : Store} (hc : c.Undoes (Manifest.ofStore s).encode) (hs : Countable s) :
    c.read (c.write s) = .ok s := by
  have hmark : (c.write s).take magic.length = magic := by simp [Codec.write]
  have hrest : (c.write s).drop magic.length = c.pack (Manifest.ofStore s).encode := by simp [Codec.write]
  unfold Codec.read
  rw [if_pos hmark, hrest]
  simp only [hc.content, takeManifest?_ofStore hs]
  simp [Decoded.suffices, hc.unbroken, toStore_ofStore]

/-- The manifest of the store has a length that a frame can state. -/
def Fits (s : Store) : Prop := (Manifest.ofStore s).encode.length + 1 < Nat.pow 2 64

instance (s : Store) : Decidable (Fits s) := inferInstanceAs (Decidable (_ < _))

theorem Fits.countable {s : Store} (h : Fits s) : Countable s := by
  obtain ⟨es, hentries, hperm⟩ := entries_ofStore s
  have hlength : ((Manifest.ofStore s).entries.flatMap ManifestEntry.encode).length < Nat.pow 2 64 := by
    have hall : (Manifest.ofStore s).encode.length + 1 < Nat.pow 2 64 := h
    simp only [Manifest.encode, List.length_append] at hall
    omega
  obtain ⟨hwritable, hcount⟩ := writable_of_length hlength
  rw [hentries] at hwritable hcount
  have hentry {e : Entry} (he : e ∈ s.entries) := hwritable _ (List.mem_map_of_mem (hperm.mem_iff.2 he))
  refine ⟨?_, fun e he => (hentry he).1, fun e he => (hentry he).2⟩
  rwa [List.length_map, hperm.length_eq] at hcount

/-- Reading undoes writing if the manifest has a length that a frame can state. -/
theorem read_write {s : Store} (h : Fits s) : read (write s) = .ok s :=
  Codec.read_write (undoes_stored h) h.countable

end JavaMend.Archive
