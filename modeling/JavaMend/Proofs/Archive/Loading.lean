import JavaMend.Proofs.Archive.Saving
import JavaMend.Proofs.Except

/-!
# `Proofs.Archive.Loading` — what is saved is loaded, and saved in one way

A store is loaded from the archive that was saved of it, whatever packs the manifest, as long as it unpacks what it
packs. The manifest depends on the entries alone: stores that find the same under every path have one manifest, and so
have all orders in which the same entries are added.

## Contents
- **Orders.** `Store.insert_eq_ok`, `Store.set_comm`; `Store.insertAll` with `Store.insertAll_perm`.
- **Stores by path.** `Store.ext_get?`.
- **Archives.** `Codec.load_save`.
-/

namespace JavaMend

open Text

/-! ## Orders -/

namespace Store

/-- A path is added exactly if it has a key and the key is free. -/
theorem insert_eq_ok {s s' : Store} {path : Text} {c : Content} :
    s.insert path c = .ok s' ↔ ∃ k, Key.ofPath? path = some k ∧ s.find? k = none ∧ s' = s.set k c := by
  unfold insert
  cases Key.ofPath? path with
  | none => simp
  | some k => cases hfind : s.find? k <;> simp [hfind, eq_comm]

/-- Contents under different keys are set in any order. -/
theorem set_comm {k l : Key} (h : k ≠ l) (s : Store) (c c' : Content) :
    (s.set k c).set l c' = (s.set l c').set k c := by
  refine ext_find? fun m => ?_
  by_cases hl : m = l
  · subst hl
    rw [find?_set_self, find?_set_of_ne h.symm, find?_set_self]
  · by_cases hk : m = k
    · subst hk
      rw [find?_set_of_ne hl, find?_set_self, find?_set_self]
    · rw [find?_set_of_ne hl, find?_set_of_ne hk, find?_set_of_ne hk, find?_set_of_ne hl]

/-- Add entries one after the other. -/
def insertAll (s : Store) (es : List (Text × Content)) : Except StoreError Store :=
  es.foldlM (fun s (path, c) => s.insert path c) s

theorem insertAll_cons (s : Store) (e : Text × Content) (es : List (Text × Content)) :
    s.insertAll (e :: es) = s.insert e.1 e.2 >>= fun s => s.insertAll es := rfl

/-- **Entries are added in any order**, with the same store in the end. -/
theorem insertAll_perm {s t : Store} {es es' : List (Text × Content)} (hperm : es.Perm es')
    (h : s.insertAll es = .ok t) : s.insertAll es' = .ok t := by
  induction hperm generalizing s with
  | nil => exact h
  | cons e _ ih =>
    rw [insertAll_cons, bind_eq_ok] at h ⊢
    obtain ⟨s₁, hfirst, hrest⟩ := h
    exact ⟨s₁, hfirst, ih hrest⟩
  | swap e e' es =>
    simp only [insertAll_cons, bind_eq_ok] at h ⊢
    obtain ⟨s₁, hfirst, s₂, hsecond, hrest⟩ := h
    obtain ⟨k, hk, hkfree, rfl⟩ := insert_eq_ok.1 hfirst
    obtain ⟨l, hl, hlfree, rfl⟩ := insert_eq_ok.1 hsecond
    -- Both keys were free from the start and differ, so they can be set the other way round.
    have hne : l ≠ k := by
      rintro rfl
      rw [find?_set_self] at hlfree
      cases hlfree
    rw [find?_set_of_ne hne] at hlfree
    refine ⟨s.set l e.2, insert_eq_ok.2 ⟨l, hl, hlfree, rfl⟩, _, insert_eq_ok.2 ⟨k, hk, ?_, rfl⟩, ?_⟩
    · rw [find?_set_of_ne hne.symm, hkfree]
    · rw [set_comm hne]
      exact hrest
  | trans _ _ ih ih' => exact ih' (ih h)

/-! ## Stores by path -/

/-- Stores that find the same under every path are equal. -/
theorem ext_get? {a b : Store} (h : ∀ path, a.get? path = b.get? path) : a = b := by
  refine ext_find? fun k => ?_
  have hk := h k.text
  simpa only [get?, Key.ofPath?_text, Option.bind_some] using hk

end Store

/-! ## Archives -/

namespace Archive

/-- **Archives round trip.** With a codec that unpacks what it packs, a countable store is read from its archive, and
    loaded from the file to which it was saved. Its manifest is that of every store that finds the same under every path,
    and of the store that any other order of adding its entries gives. -/
theorem Codec.load_save (c : Codec) (s : Store) (hc : c.Undoes (Manifest.ofStore s).encode) (hs : Countable s) :
    c.read (c.write s) = .ok s
      ∧ (∀ dir path d d', (c.save dir path s).on d = (.ok (), d') → c.load d' dir path = .ok s)
      ∧ (∀ s' : Store, (∀ path, s'.get? path = s.get? path) →
          (Manifest.ofStore s').encode = (Manifest.ofStore s).encode)
      ∧ ∀ es es' : List (Text × Content), es.Perm es' → Store.empty.insertAll es = .ok s →
          ∃ s', Store.empty.insertAll es' = .ok s' ∧ (Manifest.ofStore s').encode = (Manifest.ofStore s).encode := by
  have hread := Codec.read_write hc hs
  refine ⟨hread, ?_, ?_, ?_⟩
  · intro dir path d d' hsave
    have hsaved := c.saved_save dir path s d
    rw [hsave] at hsaved
    cases hsaved with
    | written hwrote => exact Codec.load_of_wrote hwrote hread
  · intro s' hget
    rw [Store.ext_get? hget]
  · intro es es' hperm hadded
    exact ⟨s, Store.insertAll_perm hperm hadded, rfl⟩

/-- Two sources and a resource, saved where there was nothing, with the codec of frames of stored blocks. -/
theorem Codec.load_save_sample :
    ∃ (s : Store) (d : Disk),
      Store.empty.insertAll [(text "net/B.java", .source (text "class B {}\n")), (text "icon", .resource [0x89, 0x50]),
        (text "net/A.java", .source (text "class A {}\n"))] = .ok s
      ∧ (Codec.stored.save [] (text "out.dsar") s).on ⟨[]⟩ = (.ok (), d)
      ∧ Codec.stored.load d [] (text "out.dsar") = .ok s := by
  let es : List (Text × Content) := [(text "net/B.java", .source (text "class B {}\n")),
    (text "icon", .resource [0x89, 0x50]), (text "net/A.java", .source (text "class A {}\n"))]
  let s := (Store.empty.insertAll es).toOption.getD Store.empty
  let d := ((Codec.stored.save [] (text "out.dsar") s).on ⟨[]⟩).2
  have hfits : Fits s := by decide +kernel
  have hsaved : (Codec.stored.save [] (text "out.dsar") s).on ⟨[]⟩ = (.ok (), d) :=
    Prod.ext (by decide +kernel) rfl
  exact ⟨s, d, by decide +kernel, hsaved,
    (Codec.stored.load_save s (undoes_stored hfits) hfits.countable).2.1 [] (text "out.dsar") ⟨[]⟩ d hsaved⟩

end Archive
end JavaMend
