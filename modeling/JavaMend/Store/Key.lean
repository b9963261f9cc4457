import JavaMend.Text

/-!
# `Store.Key` — entry keys

An entry is addressed by a path: segments between slashes, where a backslash counts as a slash and empty
segments and `.` segments mean nothing. Its key is the path with these removed. `..` is an ordinary
segment.

## Contents
- `segments`, `normalize`; `normalize_normalize` says that normalising twice is normalising once.
- `Key`: a nonempty normal path; `Key.ofPath?`.
- `Key.ofPath?_congr`: paths with one normal form have one key.
- `Key.fileName`: the last segment.
-/

namespace JavaMend

open Text

namespace Key

/-- A backslash separates like a slash. -/
def slash (c : Char) : Char := if c = '\\' then '/' else c

/-- A segment that names something. -/
def isProper (segment : Text) : Bool := !segment.isEmpty && segment != ['.']

/-- The segments of a path that name something. -/
def segments (path : Text) : List Text := (splitOn '/' (path.map slash)).filter isProper

/-- The normal form of a path. -/
def normalize (path : Text) : Text := joinWith ['/'] (segments path)

/-! ## Normal forms -/

theorem slash_ne_backslash (c : Char) : slash c ≠ '\\' := by
  unfold slash
  split <;> simp_all

theorem mem_segments {path s : Text} (h : s ∈ segments path) :
    isProper s = true ∧ '/' ∉ s ∧ '\\' ∉ s := by
  obtain ⟨hs, hp⟩ := List.mem_filter.1 h
  refine ⟨hp, fun hc => (mem_splitOn hs hc).2 rfl, fun hc => ?_⟩
  obtain ⟨d, -, hd⟩ := List.mem_map.1 (mem_splitOn hs hc).1
  exact slash_ne_backslash d hd

theorem map_slash_of_not_mem {t : Text} (h : '\\' ∉ t) : t.map slash = t := by
  induction t with
  | nil => rfl
  | cons c t ih =>
    have hc : c ≠ '\\' := fun e => h (by simp [e])
    have ht : '\\' ∉ t := fun e => h (by simp [e])
    simp [slash, hc, ih ht]

/-- The segments of a join of proper segments are these segments. -/
theorem segments_joinWith {ss : List Text}
    (h : ∀ s ∈ ss, isProper s = true ∧ '/' ∉ s ∧ '\\' ∉ s) : segments (joinWith ['/'] ss) = ss := by
  cases ss with
  | nil => rfl
  | cons s ss =>
    have hb : '\\' ∉ joinWith ['/'] (s :: ss) := by
      intro hc
      rcases mem_joinWith hc with hc | ⟨p, hp, hc⟩
      · simp at hc
      · exact (h p hp).2.2 hc
    rw [segments, map_slash_of_not_mem hb, splitOn_joinWith (by simp) (fun p hp => (h p hp).2.1)]
    exact List.filter_eq_self.2 fun p hp => (h p hp).1

theorem segments_normalize (path : Text) : segments (normalize path) = segments path :=
  segments_joinWith fun _ h => mem_segments h

/-- Normalising twice is normalising once. -/
theorem normalize_normalize (path : Text) : normalize (normalize path) = normalize path := by
  rw [normalize, segments_normalize]
  rfl

end Key

/-! ## Keys -/

/-- The key of an entry: a nonempty path in normal form. -/
structure Key where
  /-- The path. -/
  text : Text
  /-- It is its own normal form. -/
  isNormal : Key.normalize text = text
  /-- It names something. -/
  ne_nil : text ≠ []
deriving DecidableEq

namespace Key

@[ext] theorem ext {a b : Key} (h : a.text = b.text) : a = b := by
  cases a
  cases b
  simp_all

/-- The key that a path denotes, if it names anything. -/
def ofPath? (path : Text) : Option Key :=
  if h : normalize path = [] then none else some ⟨normalize path, normalize_normalize path, h⟩

theorem text_of_ofPath? {path : Text} {k : Key} (h : ofPath? path = some k) :
    k.text = normalize path := by
  unfold ofPath? at h
  split at h
  · simp at h
  · simp only [Option.some.injEq] at h
    exact h ▸ rfl

/-- A path without a key has the empty normal form. -/
theorem ofPath?_eq_none {path : Text} : ofPath? path = none ↔ normalize path = [] := by
  unfold ofPath?
  split <;> simp_all

/-- A key is the key of its own text. -/
theorem ofPath?_text (k : Key) : ofPath? k.text = some k := by
  unfold ofPath?
  rw [dif_neg (by rw [k.isNormal]; exact k.ne_nil)]
  exact congrArg some (Key.ext k.isNormal)

/-- Paths with one normal form have one key. -/
theorem ofPath?_congr {p q : Text} (h : normalize p = normalize q) : ofPath? p = ofPath? q := by
  unfold ofPath?
  simp only [h]

/-- The last segment of a key. -/
def fileName (k : Key) : Text := (splitOn '/' k.text).getLast?.getD []

end Key
end JavaMend
