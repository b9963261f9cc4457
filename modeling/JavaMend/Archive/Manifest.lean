import JavaMend.Archive.Digest
import JavaMend.Store

/-!
# `Archive.Manifest` — the content of an archive as bytes

A manifest lists entries with their bytes and digests. Numbers are written with a fixed width, lowest byte first, and
bytes and texts after their length. Resources come before sources, each in key order, so that equal stores
have equal manifests.

## Contents
- **Numbers.** `littleEndian`, `ofLittleEndian`; `ofLittleEndian_littleEndian`.
- **Entries.** `ManifestEntry`, `Manifest`, `Manifest.ofStore`.
- **Writing.** `ManifestEntry.encode`, `Manifest.encode`.
- **Reading.** `takeBytes?`, `takeNumber?`, `takeEntry?`, `takeManifest?`.
-/

namespace JavaMend.Archive

open JavaMend Text

/-! ## Numbers -/

/-- The lowest `count` bytes of a number, lowest first. -/
def littleEndian : Nat → Nat → Bytes
  | 0,         _ => []
  | count + 1, n => UInt8.ofNat n :: littleEndian count (n / 256)

/-- The number of bytes of which the first is lowest. -/
def ofLittleEndian : Bytes → Nat
  | []     => 0
  | b :: r => b.toNat + 256 * ofLittleEndian r

@[simp] theorem length_littleEndian (count n : Nat) : (littleEndian count n).length = count := by
  induction count generalizing n with
  | zero => rfl
  | succ count ih => simp [littleEndian, ih]

/-- A number that fits is read back. -/
theorem ofLittleEndian_littleEndian {count n : Nat} (h : n < Nat.pow 256 count) :
    ofLittleEndian (littleEndian count n) = n := by
  induction count generalizing n with
  | zero => exact (Nat.lt_one_iff.1 h).symm
  | succ count ih =>
    have hq : n / 256 < Nat.pow 256 count :=
      Nat.div_lt_of_lt_mul (Nat.lt_of_lt_of_eq h (Nat.mul_comm _ 256))
    simp only [littleEndian, ofLittleEndian, ih hq, UInt8.toNat_ofNat']
    omega

/-! ## Entries -/

/-- An entry as an archive keeps it. -/
structure ManifestEntry where
  path : Text
  isSource : Bool
  data : Bytes
  digest : Bytes
deriving DecidableEq

/-- The content of an archive. -/
structure Manifest where
  version : Nat
  entries : List ManifestEntry
deriving DecidableEq

/-- The version that is written and read. -/
def formatVersion : Nat := 1

/-- The entry of an archive for an entry of a store. -/
def ManifestEntry.ofEntry (e : Entry) : ManifestEntry :=
  ⟨e.key.text, e.content.isSource, e.content.bytes, blake3 e.content.bytes⟩

/-- The manifest of a store: resources, then sources. -/
def Manifest.ofStore (s : Store) : Manifest :=
  let resources := s.entries.filter fun e => !e.content.isSource
  let sources := s.entries.filter fun e => e.content.isSource
  ⟨formatVersion, (resources ++ sources).map ManifestEntry.ofEntry⟩

/-! ## Writing -/

/-- Bytes after their length. -/
def sized (b : Bytes) : Bytes := littleEndian 8 b.length ++ b

/-- An entry in bytes. -/
def ManifestEntry.encode (e : ManifestEntry) : Bytes :=
  sized (utf8 e.path) ++ littleEndian 4 (if e.isSource then 0 else 1) ++ sized e.data ++ e.digest

/-- A manifest in bytes. -/
def Manifest.encode (m : Manifest) : Bytes :=
  littleEndian 4 m.version ++ littleEndian 8 m.entries.length ++ m.entries.flatMap ManifestEntry.encode

/-! ## Reading -/

/-- The first `n` bytes and the rest, if there are so many. -/
def takeBytes? (n : Nat) (b : Bytes) : Option (Bytes × Bytes) :=
  if n ≤ b.length then some (b.take n, b.drop n) else none

/-- The number in the first `n` bytes. -/
def takeNumber? (n : Nat) (b : Bytes) : Option (Nat × Bytes) :=
  (takeBytes? n b).map fun (shown, rest) => (ofLittleEndian shown, rest)

/-- Bytes after their length. -/
def takeSized? (b : Bytes) : Option (Bytes × Bytes) := do
  let (n, rest) ← takeNumber? 8 b
  takeBytes? n rest

/-- An entry. -/
def takeEntry? (b : Bytes) : Option (ManifestEntry × Bytes) := do
  let (path, rest) ← takeSized? b
  let path ← ofUtf8? path
  let (kind, rest) ← takeNumber? 4 rest
  let isSource ← if kind = 0 then some true else if kind = 1 then some false else none
  let (data, rest) ← takeSized? rest
  let (digest, rest) ← takeBytes? 32 rest
  return (⟨path, isSource, data, digest⟩, rest)

/-- A number of entries. -/
def takeEntries? : Nat → Bytes → Option (List ManifestEntry × Bytes)
  | 0,     b => some ([], b)
  | n + 1, b => do
    let (e, rest) ← takeEntry? b
    let (es, rest) ← takeEntries? n rest
    return (e :: es, rest)

/-- A manifest and the bytes after it, which mean nothing. -/
def takeManifest? (b : Bytes) : Option (Manifest × Bytes) := do
  let (version, rest) ← takeNumber? 4 b
  let (count, rest) ← takeNumber? 8 rest
  let (entries, rest) ← takeEntries? count rest
  return (⟨version, entries⟩, rest)

/-- How many bytes a reader of the manifest asks for at last: the last one of a digest, or the number of entries. -/
def Manifest.lastAsked (m : Manifest) : Nat := if m.entries.isEmpty then 8 else 1

theorem takeBytes?_append (a b : Bytes) : takeBytes? a.length (a ++ b) = some (a, b) := by
  simp [takeBytes?]

theorem takeNumber?_append {count n : Nat} (h : n < Nat.pow 256 count) (b : Bytes) :
    takeNumber? count (littleEndian count n ++ b) = some (n, b) := by
  have hl := takeBytes?_append (littleEndian count n) b
  rw [length_littleEndian] at hl
  simp [takeNumber?, hl, ofLittleEndian_littleEndian h]

end JavaMend.Archive
