import JavaMend.Archive.Frame
import JavaMend.Text.Numerals

/-!
# `Archive.Container` — stores as archives

An archive is a mark, then a packed manifest. Reading checks the version, every digest, that sources are text, and that
the paths are keys without repetition. What packs the manifest is left open: archives are written as frames of stored
blocks here, and read from any frames.

## Contents
- **Errors.** `ReadError` with its messages.
- **Packing.** `Codec`, `Codec.stored`.
- **Reading.** `addEntry`, `checkDigests`, `Codec.read`, `read`.
- **Writing.** `Codec.write`, `write`.
-/

namespace JavaMend.Archive

open JavaMend Text

/-! ## Errors -/

/-- Why bytes are no archive. -/
inductive ReadError where
  | noMagic
  /-- The frame holds no manifest. -/
  | noManifest
  | version (given : Nat)
  /-- The data of this path have another digest. -/
  | digest (path : Text)
  /-- The source of this path is no text. -/
  | notText (path : Text)
  | store (error : StoreError)
deriving DecidableEq

/-- The wording of an error, for the archive of the given name. -/
def ReadError.message (name : Text) : ReadError → Text
  | .noMagic       => text "Invalid archive " ++ name ++ text ": missing magic header"
  | .noManifest    => text "Failed to deserialize archive manifest"
  | .version given =>
    text "Unsupported archive version: " ++ ofNat given ++ text " (expected " ++ ofNat formatVersion ++ [')']
  | .digest path   => text "Hash mismatch for archive entry: " ++ path
  | .notText path  => text "Source is not UTF-8: " ++ path
  | .store error   => error.message

/-! ## Packing -/

/-- What packs bytes, and what is read of packed bytes. -/
structure Codec where
  pack : Bytes → Bytes
  unpack : Bytes → Decoded

/-- Frames; stored blocks where they are written. -/
def Codec.stored : Codec := ⟨frame, frameContent⟩

/-! ## Reading -/

/-- The mark of an archive. -/
def magic : Bytes := utf8 (text "DSRCAR01")

/-- The content that an entry of a manifest stands for. -/
def ManifestEntry.content (e : ManifestEntry) : Except ReadError Content :=
  if e.isSource then
    match ofUtf8? e.data with
    | some t => .ok (.source t)
    | none   => .error (.notText e.path)
  else .ok (.resource e.data)

/-- Add an entry of a manifest to a store. -/
def addEntry (s : Store) (e : ManifestEntry) : Except ReadError Store := do
  (s.insert e.path (← e.content)).mapError .store

/-- Every entry has the digest that is recorded for it. -/
def checkDigests (es : List ManifestEntry) : Except ReadError Unit :=
  match es.find? fun e => blake3 e.data != e.digest with
  | some e => .error (.digest e.path)
  | none   => .ok ()

/-- The store that a manifest stands for. -/
def Manifest.toStore (m : Manifest) : Except ReadError Store := do
  if m.version ≠ formatVersion then throw (.version m.version)
  -- All digests are checked before any entry is added.
  checkDigests m.entries
  m.entries.foldlM addEntry Store.empty

/-- Read an archive. -/
def Codec.read (c : Codec) (b : Bytes) : Except ReadError Store :=
  if b.take magic.length = magic then
    let content := c.unpack (b.drop magic.length)
    match takeManifest? content.pieces.flatten with
    | some (m, rest) => if content.suffices rest m.lastAsked then m.toStore else .error .noManifest
    | none           => .error .noManifest
  else .error .noMagic

@[inherit_doc Codec.read]
def read (b : Bytes) : Except ReadError Store := Codec.stored.read b

/-! ## Writing -/

/-- The archive of a store. -/
def Codec.write (c : Codec) (s : Store) : Bytes := magic ++ c.pack (Manifest.ofStore s).encode

@[inherit_doc Codec.write]
def write (s : Store) : Bytes := Codec.stored.write s

end JavaMend.Archive
