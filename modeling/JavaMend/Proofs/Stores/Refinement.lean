import JavaMend.Proofs.ByteOrder
import JavaMend.Proofs.Stores
import Mathlib.Data.Finmap

/-!
# `Proofs.Stores.Refinement` — a store is a finite map

Everything that can be asked of a store is answered as a finite map from normal paths would answer it: `FileMap` says
what is asked and answered without keys, orders and lists of entries. One request is compared with the map's
(`Store.mapped_perform`), and a run of them follows request by request.

## Contents
- **Requests.** `Request`, `Reply`; `Store.perform`, `Store.run`.
- **Maps.** `FileMap` with `FileMap.perform`, `FileMap.run`.
- **The map of a store.** `Store.toMap`; `Store.lookup_toMap_normalize`, `Store.toMap_set`.
- **One request.** `Store.mapped_insert`, `Store.mapped_replaceSource`, `Store.mapped_upsertSource`,
  `Store.mapped_perform`.
- **Changes.** `Store.Denotes`, `Store.perform_cases`; `Store.Changes` with `Store.perform_changes`.
- **Runs.** `Store.Sound` with `Store.sound`; `Store.mapped_run`, `run_refines`.
-/

namespace JavaMend

open Text

/-! ## Requests -/

/-- What is asked of the entry that a path denotes. -/
inductive Request where
  | insertSource (text : Text)
  | insertResource (data : Bytes)
  | replaceSource (text : Text)
  | upsertSource (text : Text)
  | get
  | source
  | contains
deriving DecidableEq

/-- What is answered; entries and errors come with the path that they have inside the store. -/
inductive Reply where
  | done
  | duplicate (key : Text)
  | notFound (key : Text)
  | notSource (key : Text)
  | invalidPath (path : Text)
  | entry (found : Option (Text × Content))
  | source (found : Option Text)
  | contained (answer : Bool)
deriving DecidableEq

/-- The reply to a request that is refused. -/
def Reply.ofError : StoreError → Reply
  | .duplicate key    => .duplicate key.text
  | .notFound path    => .notFound path
  | .notSource key    => .notSource key.text
  | .invalidPath path => .invalidPath path

/-- The request was refused. -/
def Reply.IsRefusal (r : Reply) : Prop := ∃ e, r = ofError e

namespace Store

/-- The reply of a change and the store after it: a refused change leaves the store as it is. -/
def changed (s : Store) : Except StoreError Store → Reply × Store
  | .ok s'   => (.done, s')
  | .error e => (.ofError e, s)

/-- What a store answers, and the store after that. -/
def perform (s : Store) (path : Text) : Request → Reply × Store
  | .insertSource text   => s.changed (s.insert path (.source text))
  | .insertResource data => s.changed (s.insert path (.resource data))
  | .replaceSource text  => s.changed (s.replaceSource path text)
  | .upsertSource text   => s.changed (s.upsertSource path text)
  | .get                 => (.entry ((s.get? path).map fun e => (e.key.text, e.content)), s)
  | .source              => (.source (s.source? path), s)
  | .contains            => (.contained (s.contains path), s)

/-- What a store answers to one request after the other, and the store after them. -/
def run (s : Store) : List (Text × Request) → List Reply × Store
  | []                => ([], s)
  | (path, r) :: rest =>
    let (reply, s) := s.perform path r
    let (replies, s) := s.run rest
    (reply :: replies, s)

end Store

/-! ## Maps -/

/-- The text of a content that is a source. -/
def Content.source? : Content → Option Text
  | .source text => some text
  | .resource _  => none

/-- A plain map from texts to contents. -/
abbrev FileMap := Finmap fun _ : Text => Content

namespace FileMap

/-- Add a content under a free key. -/
def add (m : FileMap) (path : Text) (content : Content) : Reply × FileMap :=
  let key := Key.normalize path
  if key = [] then (.invalidPath path, m)
  else if key ∈ m then (.duplicate key, m)
  else (.done, m.insert key content)

/-- Change the text of a source. -/
def replace (m : FileMap) (path : Text) (text : Text) : Reply × FileMap :=
  let key := Key.normalize path
  match m.lookup key with
  | some (.source _)   => (.done, m.insert key (.source text))
  | some (.resource _) => (.notSource key, m)
  | none               => (.notFound key, m)

/-- Give a text to a source or to a free key. -/
def upsert (m : FileMap) (path : Text) (text : Text) : Reply × FileMap :=
  let key := Key.normalize path
  if key = [] then (.invalidPath path, m)
  else match m.lookup key with
    | some (.resource _) => (.notSource key, m)
    | _                  => (.done, m.insert key (.source text))

/-- What a map answers, keyed by normal paths, and the map after that. -/
def perform (m : FileMap) (path : Text) : Request → Reply × FileMap
  | .insertSource text   => m.add path (.source text)
  | .insertResource data => m.add path (.resource data)
  | .replaceSource text  => m.replace path text
  | .upsertSource text   => m.upsert path text
  | .get                 => (.entry ((m.lookup (Key.normalize path)).map (Key.normalize path, ·)), m)
  | .source              => (.source ((m.lookup (Key.normalize path)).bind Content.source?), m)
  | .contains            => (.contained (decide (Key.normalize path ∈ m)), m)

/-- What a map answers to one request after the other, and the map after them. -/
def run (m : FileMap) : List (Text × Request) → List Reply × FileMap
  | []                => ([], m)
  | (path, r) :: rest =>
    let (reply, m) := m.perform path r
    let (replies, m) := m.run rest
    (reply :: replies, m)

end FileMap

/-! ## The map of a store -/

/-- The content of an entry by the text of its key. -/
def Entry.toPair (e : Entry) : (_ : Text) × Content := ⟨e.key.text, e.content⟩

namespace Store

variable {s : Store} {path : Text}

/-- The contents of a store by the texts of their keys. -/
def toMap (s : Store) : FileMap := (s.entries.map Entry.toPair).toFinmap

theorem toMap_empty : empty.toMap = ∅ := Finmap.toFinmap_nil

theorem nodupKeys_toPair (s : Store) : (s.entries.map Entry.toPair).NodupKeys := by
  unfold List.NodupKeys List.keys
  rw [List.map_map]
  refine List.Nodup.map_on (fun e he e' he' h => ?_) s.nodup_keys.of_map
  exact List.inj_on_of_nodup_map s.nodup_keys he he' (Key.ext h)

theorem lookup_toMap {key : Text} {c : Content} :
    s.toMap.lookup key = some c ↔ ∃ k : Key, k.text = key ∧ s.find? k = some ⟨k, c⟩ := by
  rw [toMap, Finmap.dlookup_list_toFinmap, ← Option.mem_def, List.mem_dlookup_iff s.nodupKeys_toPair, List.mem_map]
  constructor
  · rintro ⟨⟨k, c⟩, hmem, h⟩
    cases h
    exact ⟨k, rfl, find?_eq_some_iff.2 ⟨hmem, rfl⟩⟩
  · rintro ⟨k, rfl, hk⟩
    exact ⟨⟨k, c⟩, (find?_eq_some_iff.1 hk).1, rfl⟩

/-- The content under a key. -/
theorem lookup_toMap_text (s : Store) (k : Key) : s.toMap.lookup k.text = (s.find? k).map Entry.content := by
  refine Option.ext fun c => ?_
  rw [lookup_toMap, Option.map_eq_some_iff]
  constructor
  · rintro ⟨l, hl, h⟩
    cases Key.ext hl
    exact ⟨_, h, rfl⟩
  · rintro ⟨e, h, rfl⟩
    cases key_of_find? h
    exact ⟨_, rfl, h⟩

/-- Nothing has an empty key. -/
theorem lookup_toMap_nil (s : Store) : s.toMap.lookup [] = none := by
  refine Option.eq_none_iff_forall_ne_some.2 fun c h => ?_
  obtain ⟨k, hk, -⟩ := lookup_toMap.1 h
  exact k.ne_nil hk

/-- The map has under a normal path what the store has under the path. -/
theorem lookup_toMap_normalize (s : Store) (path : Text) :
    s.toMap.lookup (Key.normalize path) = (s.get? path).map Entry.content := by
  unfold get?
  cases hkey : Key.ofPath? path with
  | none => rw [Key.ofPath?_eq_none.1 hkey, lookup_toMap_nil]; rfl
  | some k => rw [← Key.text_of_ofPath? hkey, lookup_toMap_text]; rfl

/-- Keeping a content under a key is inserting it into the map. -/
theorem toMap_set (s : Store) (k : Key) (c : Content) : (s.set k c).toMap = s.toMap.insert k.text c := by
  refine Finmap.ext_lookup fun key => ?_
  by_cases hkey : key = k.text
  · subst hkey
    rw [Finmap.lookup_insert, lookup_toMap_text, find?_set_self]
    rfl
  · rw [Finmap.lookup_insert_of_ne _ hkey]
    refine Option.ext fun c' => ?_
    rw [lookup_toMap, lookup_toMap]
    refine exists_congr fun l => and_congr_right fun hl => ?_
    rw [find?_set_of_ne fun h => hkey (hl ▸ congrArg Key.text h)]

/-! ## One request -/

/-- A reply, and the map of the store after it. -/
def mapped : Reply × Store → Reply × FileMap := Prod.map id toMap

theorem mapped_insert (s : Store) (path : Text) (c : Content) :
    mapped (s.changed (s.insert path c)) = s.toMap.add path c := by
  unfold insert FileMap.add
  cases hkey : Key.ofPath? path with
  | none =>
    rw [if_pos (Key.ofPath?_eq_none.1 hkey)]
    rfl
  | some k =>
    -- A key is taken in the map where the store has an entry under it.
    have hmem : k.text ∈ s.toMap ↔ (s.find? k).isSome = true := by
      rw [← Finmap.lookup_isSome, lookup_toMap_text, Option.isSome_map]
    rw [← Key.text_of_ofPath? hkey, if_neg k.ne_nil]
    by_cases htaken : (s.find? k).isSome = true
    · rw [if_pos (hmem.2 htaken)]
      simp only [htaken, if_true]
      rfl
    · rw [if_neg (mt hmem.1 htaken), ← toMap_set]
      simp only [htaken]
      rfl

theorem mapped_replaceSource (s : Store) (path text : Text) :
    mapped (s.changed (s.replaceSource path text)) = s.toMap.replace path text := by
  unfold replaceSource FileMap.replace
  simp only [lookup_toMap_normalize]
  cases hget : s.get? path with
  | none => rfl
  | some e =>
    obtain ⟨k, hkey, hfind⟩ := Option.bind_eq_some_iff.1 hget
    obtain ⟨l, u | data⟩ := e
    · cases key_of_find? hfind
      rw [← Key.text_of_ofPath? hkey]
      simp only [Option.map_some, ← toMap_set]
      rfl
    · cases key_of_find? hfind
      rw [← Key.text_of_ofPath? hkey]
      rfl

theorem mapped_upsertSource (s : Store) (path text : Text) :
    mapped (s.changed (s.upsertSource path text)) = s.toMap.upsert path text := by
  unfold upsertSource FileMap.upsert
  by_cases hcontains : s.contains path = true
  · -- It changes the text of what is there.
    obtain ⟨e, hget⟩ := Option.isSome_iff_exists.1 hcontains
    obtain ⟨k, hkey, -⟩ := Option.bind_eq_some_iff.1 hget
    rw [if_pos hcontains, mapped_replaceSource]
    simp only [FileMap.replace, lookup_toMap_normalize, hget, ← Key.text_of_ofPath? hkey, if_neg k.ne_nil]
    obtain ⟨l, u | data⟩ := e <;> rfl
  · -- It adds a source.
    have hget : s.get? path = none := by simpa [contains] using hcontains
    have hfree : Key.normalize path ∉ s.toMap := by
      rw [← Finmap.lookup_eq_none, lookup_toMap_normalize, hget]
      rfl
    rw [if_neg hcontains, mapped_insert]
    simp only [FileMap.add, lookup_toMap_normalize, hget, if_neg hfree]
    rfl

/-- **A store answers as its map does**, and its map is the one after that. -/
theorem mapped_perform (s : Store) (path : Text) (r : Request) :
    mapped (s.perform path r) = s.toMap.perform path r := by
  have hlookup := s.lookup_toMap_normalize path
  cases r with
  | insertSource text   => exact s.mapped_insert path (.source text)
  | insertResource data => exact s.mapped_insert path (.resource data)
  | replaceSource text  => exact s.mapped_replaceSource path text
  | upsertSource text   => exact s.mapped_upsertSource path text
  | get =>
    show (Reply.entry _, _) = (Reply.entry _, _)
    rw [hlookup, Option.map_map]
    congr 2
    cases hget : s.get? path with
    | none   => rfl
    | some e =>
      obtain ⟨k, hkey, hfind⟩ := Option.bind_eq_some_iff.1 hget
      cases key_of_find? hfind
      simp [Key.text_of_ofPath? hkey]
  | source =>
    show (Reply.source _, _) = (Reply.source _, _)
    rw [hlookup, source?]
    obtain _ | ⟨k, u | data⟩ := s.get? path <;> rfl
  | contains =>
    have hmem : Key.normalize path ∈ s.toMap ↔ s.contains path = true := by
      rw [← Finmap.lookup_isSome, hlookup, Option.isSome_map]
      rfl
    show (Reply.contained _, _) = (Reply.contained _, _)
    simp [hmem]

/-! ## Changes -/

/-- What a path denotes: nothing, a free key, a source or a resource. -/
inductive Denotes (s : Store) (path : Text) : Prop where
  | nothing (h : Key.ofPath? path = none)
  | free (k : Key) (hk : Key.ofPath? path = some k) (h : s.find? k = none)
  | source (k : Key) (hk : Key.ofPath? path = some k) (text : Text) (h : s.find? k = some ⟨k, .source text⟩)
  | resource (k : Key) (hk : Key.ofPath? path = some k) (data : Bytes) (h : s.find? k = some ⟨k, .resource data⟩)

theorem denotes (s : Store) (path : Text) : s.Denotes path := by
  cases hkey : Key.ofPath? path with
  | none => exact .nothing hkey
  | some k =>
    cases hfind : s.find? k with
    | none => exact .free k hkey hfind
    | some e =>
      obtain ⟨l, text | data⟩ := e
      · cases key_of_find? hfind
        exact .source l hkey text hfind
      · cases key_of_find? hfind
        exact .resource l hkey data hfind

/-- **A request changes nothing, or is granted and sets a content** of the kind that is there, if there is any. -/
theorem perform_cases (s : Store) (path : Text) (r : Request) :
    (s.perform path r).2 = s ∨ ∃ k c, Key.ofPath? path = some k ∧ s.perform path r = (.done, s.set k c)
      ∧ ∀ e, s.find? k = some e → e.content.isSource = c.isSource := by
  cases s.denotes path with
  | nothing h =>
    left
    cases r <;> simp [perform, changed, insert, replaceSource, upsertSource, contains, get?, h]
  | free k hk h =>
    cases r <;> simp [perform, changed, insert, replaceSource, upsertSource, contains, get?, hk, h]
  | source k hk text h =>
    -- A request that sets a text sets a source again.
    have hset (t : Text) : ∃ c, s.set k (.source t) = s.set k c ∧ (Content.source text).isSource = c.isSource :=
      ⟨_, rfl, rfl⟩
    cases r <;> simp [perform, changed, insert, replaceSource, upsertSource, contains, get?, hk, h, hset]
  | resource k hk data h =>
    left
    cases r <;> simp [perform, changed, insert, replaceSource, upsertSource, contains, get?, hk, h]

/-- What a request may do to a store: `reply` is given and `s'` is there afterwards. -/
structure Changes (s : Store) (path : Text) (reply : Reply) (s' : Store) : Prop where
  /-- A request that is refused changes nothing. -/
  refused : reply.IsRefusal → s' = s
  /-- Only the entry that the path denotes is changed. -/
  others : ∀ e : Entry, e.key.text ≠ Key.normalize path → (e ∈ s'.entries ↔ e ∈ s.entries)
  /-- No entry goes away or becomes one of the other kind. -/
  kept : ∀ e ∈ s.entries, ∃ e' ∈ s'.entries, e'.key = e.key ∧ e'.content.isSource = e.content.isSource

theorem perform_changes (s : Store) (path : Text) (r : Request) :
    s.Changes path (s.perform path r).1 (s.perform path r).2 := by
  obtain hsame | ⟨k, c, hkey, hset, hkind⟩ := s.perform_cases path r
  · rw [hsame]
    exact ⟨fun _ => rfl, fun e _ => Iff.rfl, fun e he => ⟨e, he, rfl, rfl⟩⟩
  · rw [hset]
    refine ⟨?_, fun e he => ?_, fun e he => ?_⟩
    · rintro ⟨e, he⟩
      cases e <;> cases he
    · have hne : e.key ≠ k := fun h => he (by rw [h, Key.text_of_ofPath? hkey])
      have h (s : Store) : e ∈ s.entries ↔ s.find? e.key = some e := by simp [find?_eq_some_iff]
      rw [h, h, find?_set_of_ne hne]
    · have hfind : s.find? e.key = some e := find?_eq_some_iff.2 ⟨he, rfl⟩
      by_cases hek : e.key = k
      · subst hek
        exact ⟨⟨e.key, c⟩, (find?_eq_some_iff.1 (find?_set_self s e.key c)).1, rfl, (hkind e hfind).symm⟩
      · rw [← find?_set_of_ne hek c] at hfind
        exact ⟨e, (find?_eq_some_iff.1 hfind).1, rfl, rfl⟩

/-! ## Runs -/

/-- What holds of a store: of its keys, of their order, and of the paths that denote its entries. -/
structure Sound (s : Store) : Prop where
  /-- A key names something and is its own normal form, and its entry is the one that it denotes. -/
  keys : ∀ e ∈ s.entries, e.key.text ≠ [] ∧ Key.normalize e.key.text = e.key.text ∧ s.get? e.key.text = some e
  /-- From entry to entry, the keys increase byte by byte. -/
  increasing : (s.entries.map fun e => utf8 e.key.text).Pairwise (· < ·)
  /-- Paths with one normal form denote one entry: what is asked of one of them is asked of the other. -/
  same : ∀ p q, Key.normalize p = Key.normalize q → s.get? p = s.get? q ∧
    ∀ r, (s.perform p r).2 = (s.perform q r).2 ∧ (Key.normalize p ≠ [] → s.perform p r = s.perform q r)

/-- A path that names nothing changes nothing. -/
theorem perform_of_ofPath?_none (h : Key.ofPath? path = none) (r : Request) : (s.perform path r).2 = s := by
  obtain hsame | ⟨k, -, hkey, -⟩ := s.perform_cases path r
  · exact hsame
  · cases h.symm.trans hkey

/-- A request is the same for all paths with one normal form. -/
theorem perform_congr {p q : Text} (h : Key.normalize p = Key.normalize q) (hne : Key.normalize p ≠ [])
    (r : Request) : s.perform p r = s.perform q r := by
  have hkey := Key.ofPath?_congr h
  obtain ⟨k, hk⟩ := Option.ne_none_iff_exists'.1 (mt Key.ofPath?_eq_none.1 hne)
  rw [hk] at hkey
  cases r <;>
    simp only [perform, insert, replaceSource, upsertSource, source?, contains, get?, hk, ← hkey, h]

theorem sound (s : Store) : s.Sound := by
  refine ⟨fun e he => ⟨e.key.ne_nil, e.key.isNormal, ?_⟩, ?_, fun p q h => ⟨?_, fun r => ⟨?_, ?_⟩⟩⟩
  · rw [get?, Key.ofPath?_text, Option.bind_some]
    exact find?_eq_some_iff.2 ⟨he, rfl⟩
  · exact List.pairwise_map.2 (s.ordered.imp fun h => before_iff_utf8_lt.1 h)
  · rw [get?, get?, Key.ofPath?_congr h]
  · by_cases hnil : Key.normalize p = []
    · rw [perform_of_ofPath?_none (Key.ofPath?_eq_none.2 hnil),
        perform_of_ofPath?_none (Key.ofPath?_eq_none.2 (h ▸ hnil))]
    · rw [perform_congr h hnil]
  · exact fun hne => perform_congr h hne r

/-- A run of requests is answered as the map of the store answers it. -/
theorem mapped_run (s : Store) (ops : List (Text × Request)) :
    Prod.map id toMap (s.run ops) = s.toMap.run ops := by
  induction ops generalizing s with
  | nil => rfl
  | cons op ops ih =>
    obtain ⟨path, r⟩ := op
    have hstep := s.mapped_perform path r
    have hrest := ih (s.perform path r).2
    unfold run FileMap.run
    rw [← hstep]
    simp only [mapped, Prod.map_fst, Prod.map_snd] at hrest ⊢
    rw [← hrest]
    rfl

end Store

/-- **A store is a finite map keyed by normal paths.** Whatever is asked of an empty store, one request after the other,
    the replies and the contents in the end are those of the map; the store is sound, and the next request changes at
    most the entry that its path denotes, and nothing if it is refused. -/
theorem run_refines (ops : List (Text × Request)) :
    Prod.map id Store.toMap (Store.empty.run ops) = FileMap.run ∅ ops ∧ (Store.empty.run ops).2.Sound ∧
      ∀ path r, (Store.empty.run ops).2.Changes path ((Store.empty.run ops).2.perform path r).1
        ((Store.empty.run ops).2.perform path r).2 := by
  refine ⟨?_, Store.sound _, fun path r => Store.perform_changes _ path r⟩
  rw [Store.mapped_run, Store.toMap_empty]

end JavaMend
