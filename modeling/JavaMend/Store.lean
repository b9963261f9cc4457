import JavaMend.Store.Key
import JavaMend.Text.Bytes
import JavaMend.Text.Order

/-!
# `Store` — entries in key order

A store holds entries, each a source text or a resource of raw bytes, in the order of their keys and with no key
twice. Both are part of the type, so two stores with the same entries are equal.

## Contents
- **Entries.** `Content`, `Entry`, `StoreError` with its messages.
- **Ordered entries.** `put` keeps the order; `findKey?_put_self` and `findKey?_put_of_ne` are its laws.
- **Stores.** `Store` with `find?`, `get?`, `source?`, `insert`, `replaceSource`, `upsertSource`, `mapSources`.
-/

namespace JavaMend

open Text

/-! ## Entries -/

/-- What an entry holds. -/
inductive Content where
  | source (text : Text)
  | resource (data : Bytes)
deriving DecidableEq, Repr

/-- The bytes of an entry's file. -/
def Content.bytes : Content → Bytes
  | .source text   => utf8 text
  | .resource data => data

/-- The content is a source text. -/
def Content.isSource : Content → Bool
  | .source _   => true
  | .resource _ => false

/-- A key with what is kept under it. -/
structure Entry where
  key : Key
  content : Content
deriving DecidableEq

/-- Why a store refuses an operation. -/
inductive StoreError where
  /-- The key is taken. -/
  | duplicate (key : Key)
  /-- Nothing is kept under this normal path. -/
  | notFound (path : Text)
  /-- The entry is a resource. -/
  | notSource (key : Key)
  /-- The path names nothing. -/
  | invalidPath (path : Text)
deriving DecidableEq

/-- A path in quotes, with quotes and backslashes escaped. -/
def quoted (path : Text) : Text :=
  '"' :: (path.flatMap fun c => if c = '"' ∨ c = '\\' then ['\\', c] else [c]) ++ ['"']

/-- The wording of a refusal. -/
def StoreError.message : StoreError → Text
  | .duplicate key    => text "duplicate entry: " ++ key.text
  | .notFound path    => text "entry not found: " ++ path
  | .notSource key    => text "entry is not a source file: " ++ key.text
  | .invalidPath path => text "invalid entry path: " ++ quoted path

/-! ## Ordered entries -/

/-- The key of the first entry comes before that of the second. -/
def Entry.Before (a b : Entry) : Prop := a.key.text.before b.key.text = true

instance (a b : Entry) : Decidable (a.Before b) := inferInstanceAs (Decidable (_ = true))

theorem Entry.Before.trans {a b c : Entry} (h1 : a.Before b) (h2 : b.Before c) : a.Before c :=
  before_trans h1 h2

theorem Entry.Before.irrefl (a : Entry) : ¬ a.Before a := Bool.eq_false_iff.1 (before_irrefl _)

/-- Of two different keys one comes before the other. -/
theorem Entry.before_of_not {a b : Entry} (hne : b.key ≠ a.key) (h : ¬ b.Before a) : a.Before b :=
  before_total (fun e => hne (Key.ext e)) (Bool.eq_false_iff.2 h)

/-- The entries with `e` in its place, instead of the entry with its key if there is one. -/
def put (e : Entry) : List Entry → List Entry
  | []      => [e]
  | x :: xs => if e.key = x.key then e :: xs else if e.Before x then e :: x :: xs else x :: put e xs

theorem mem_put {e x : Entry} {es : List Entry} (h : x ∈ put e es) : x = e ∨ x ∈ es := by
  induction es with
  | nil => simpa [put] using h
  | cons y ys ih =>
    unfold put at h
    split at h
    · rcases List.mem_cons.1 h with rfl | h
      · exact .inl rfl
      · exact .inr (by simp [h])
    · split at h
      · rcases List.mem_cons.1 h with rfl | h
        · exact .inl rfl
        · exact .inr h
      · rcases List.mem_cons.1 h with rfl | h
        · exact .inr (by simp)
        · rcases ih h with rfl | h
          · exact .inl rfl
          · exact .inr (by simp [h])

/-- Putting an entry keeps the order. -/
theorem pairwise_put {e : Entry} {es : List Entry} (h : es.Pairwise Entry.Before) :
    (put e es).Pairwise Entry.Before := by
  induction es with
  | nil => simp [put]
  | cons x xs ih =>
    obtain ⟨hx, hxs⟩ := List.pairwise_cons.1 h
    unfold put
    split
    · rename_i hk
      refine List.pairwise_cons.2 ⟨fun y hy => ?_, hxs⟩
      have := hx y hy
      unfold Entry.Before at this ⊢
      rw [hk]
      exact this
    · split
      · rename_i hb
        refine List.pairwise_cons.2 ⟨fun y hy => ?_, h⟩
        rcases List.mem_cons.1 hy with rfl | hy
        · exact hb
        · exact hb.trans (hx y hy)
      · rename_i hk hb
        refine List.pairwise_cons.2 ⟨fun y hy => ?_, ih hxs⟩
        rcases mem_put hy with rfl | hy
        · exact Entry.before_of_not hk hb
        · exact hx y hy

/-- The entry with a given key. -/
def findKey? (k : Key) (es : List Entry) : Option Entry := es.find? fun e => e.key = k

theorem findKey?_put_self (e : Entry) (es : List Entry) : findKey? e.key (put e es) = some e := by
  induction es with
  | nil => simp [put, findKey?]
  | cons x xs ih =>
    unfold put
    split
    · simp [findKey?]
    · split
      · simp [findKey?]
      · rename_i hk _
        simp only [findKey?] at ih
        simp [findKey?, Ne.symm hk, ih]

theorem findKey?_put_of_ne {e : Entry} {k : Key} (h : k ≠ e.key) (es : List Entry) :
    findKey? k (put e es) = findKey? k es := by
  induction es with
  | nil => simp [put, findKey?, Ne.symm h]
  | cons x xs ih =>
    unfold put
    split
    · rename_i hk
      simp [findKey?, Ne.symm h, ← hk]
    · split
      · simp [findKey?, Ne.symm h]
      · simp only [findKey?] at ih ⊢
        simp only [List.find?_cons, ih]

/-! ## Stores -/

/-- Entries in the order of their keys, no key twice. -/
structure Store where
  entries : List Entry
  ordered : entries.Pairwise Entry.Before
deriving DecidableEq

namespace Store

/-- The store without entries. -/
def empty : Store := ⟨[], List.Pairwise.nil⟩

@[ext] theorem ext {a b : Store} (h : a.entries = b.entries) : a = b := by
  cases a
  cases b
  simp_all

/-- The number of entries. -/
def size (s : Store) : Nat := s.entries.length

/-- There is no entry. -/
def isEmpty (s : Store) : Bool := s.entries.isEmpty

/-- The number of source entries. -/
def sourceCount (s : Store) : Nat := s.entries.countP fun e => e.content.isSource

/-- The entry under a key. -/
def find? (s : Store) (k : Key) : Option Entry := findKey? k s.entries

/-- The entry that a path denotes. -/
def get? (s : Store) (path : Text) : Option Entry := (Key.ofPath? path).bind s.find?

/-- A path denotes an entry. -/
def contains (s : Store) (path : Text) : Bool := (s.get? path).isSome

/-- The text of the source entry that a path denotes. -/
def source? (s : Store) (path : Text) : Option Text :=
  match s.get? path with
  | some ⟨_, .source text⟩ => some text
  | _                      => none

/-- Keep `content` under `k`, whatever was there. -/
def set (s : Store) (k : Key) (content : Content) : Store :=
  ⟨put ⟨k, content⟩ s.entries, pairwise_put s.ordered⟩

@[simp] theorem find?_set_self (s : Store) (k : Key) (content : Content) :
    (s.set k content).find? k = some ⟨k, content⟩ :=
  findKey?_put_self ⟨k, content⟩ s.entries

theorem find?_set_of_ne {s : Store} {k l : Key} (h : l ≠ k) (content : Content) :
    (s.set k content).find? l = s.find? l :=
  findKey?_put_of_ne h s.entries

/-- Add an entry; its key must be free. -/
def insert (s : Store) (path : Text) (content : Content) : Except StoreError Store :=
  match Key.ofPath? path with
  | none   => .error (.invalidPath path)
  | some k => if (s.find? k).isSome then .error (.duplicate k) else .ok (s.set k content)

/-- Change the text of a source entry. -/
def replaceSource (s : Store) (path : Text) (text : Text) : Except StoreError Store :=
  match s.get? path with
  | some ⟨k, .source _⟩   => .ok (s.set k (.source text))
  | some ⟨k, .resource _⟩ => .error (.notSource k)
  | none                  => .error (.notFound (Key.normalize path))

/-- Change the text of a source entry, or add it. -/
def upsertSource (s : Store) (path : Text) (text : Text) : Except StoreError Store :=
  if s.contains path then s.replaceSource path text else s.insert path (.source text)

/-- Change every source text. -/
def mapSources (s : Store) (f : Key → Text → Text) : Store where
  entries := s.entries.map fun
    | ⟨k, .source text⟩   => ⟨k, .source (f k text)⟩
    | ⟨k, .resource data⟩ => ⟨k, .resource data⟩
  ordered := by
    refine List.pairwise_map.2 (s.ordered.imp ?_)
    rintro ⟨k, (_ | _)⟩ ⟨l, (_ | _)⟩ h <;> exact h

/-- The source entries with their texts, in key order. -/
def sources (s : Store) : List (Key × Text) :=
  s.entries.filterMap fun
    | ⟨k, .source text⟩ => some (k, text)
    | ⟨_, .resource _⟩  => none

end Store
end JavaMend
