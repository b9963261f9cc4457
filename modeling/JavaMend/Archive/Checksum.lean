import JavaMend.Archive.Digest

/-!
# `Archive.Checksum` — XXH64

The checksum of a sequence of bytes: four words take turns at eight bytes each, are merged, and the bytes that are left
over and the length are mixed in.

## Contents
- **Rounds.** `rotateWord`, `spread`, `Lanes`, `Lanes.absorb`, `Lanes.merged`.
- **The checksum.** `absorbRest`, `settled`, `xxh64`.
-/

namespace JavaMend.Archive

open JavaMend

/-! ## Rounds -/

/-- The five multipliers. -/
def prime1 : UInt64 := 0x9E3779B185EBCA87
def prime2 : UInt64 := 0xC2B2AE3D27D4EB4F
def prime3 : UInt64 := 0x165667B19E3779F9
def prime4 : UInt64 := 0x85EBCA77C2B2AE63
def prime5 : UInt64 := 0x27D4EB2F165667C5

/-- Rotate a word to the left. -/
def rotateWord (w n : UInt64) : UInt64 := w <<< n ||| w >>> (64 - n)

/-- The number of up to eight bytes, the first one lowest. -/
def longOf (b : Bytes) : UInt64 := b.foldr (fun x acc => acc <<< 8 ||| x.toUInt64) 0

/-- A word with another one spread over it. -/
def spread (acc w : UInt64) : UInt64 := rotateWord (acc + w * prime2) 31 * prime1

/-- The four words that take turns. -/
structure Lanes where
  a : UInt64
  b : UInt64
  c : UInt64
  d : UInt64

/-- The words at the start. -/
def Lanes.start : Lanes := ⟨prime1 + prime2, prime2, 0, 0 - prime1⟩

/-- Take in 32 bytes. -/
def Lanes.absorb (l : Lanes) (stripe : Bytes) : Lanes :=
  ⟨spread l.a (longOf (stripe.take 8)), spread l.b (longOf ((stripe.drop 8).take 8)),
    spread l.c (longOf ((stripe.drop 16).take 8)), spread l.d (longOf ((stripe.drop 24).take 8))⟩

/-- The four words as one. -/
def Lanes.merged (l : Lanes) : UInt64 :=
  [l.a, l.b, l.c, l.d].foldl (fun acc w => (acc ^^^ spread 0 w) * prime1 + prime4)
    (rotateWord l.a 1 + rotateWord l.b 7 + rotateWord l.c 12 + rotateWord l.d 18)

/-! ## The checksum -/

/-- Mix in bytes that fill no stripe: eight at a time, then four, then one by one. -/
def absorbRest (acc : UInt64) (b : Bytes) : UInt64 :=
  let eights := b.take (8 * (b.length / 8))
  let rest := b.drop eights.length
  let acc := (partsOf 7 eights).foldl
    (fun acc w => rotateWord (acc ^^^ spread 0 (longOf w)) 27 * prime1 + prime4) acc
  let (acc, rest) :=
    if 4 ≤ rest.length then
      (rotateWord (acc ^^^ longOf (rest.take 4) * prime1) 23 * prime2 + prime3, rest.drop 4)
    else (acc, rest)
  rest.foldl (fun acc x => rotateWord (acc ^^^ x.toUInt64 * prime5) 11 * prime1) acc

/-- Mix the bits of a word among one another. -/
def settled (w : UInt64) : UInt64 :=
  let w := (w ^^^ w >>> 33) * prime2
  let w := (w ^^^ w >>> 29) * prime3
  w ^^^ w >>> 32

/-- The checksum of bytes. -/
def xxh64 (b : Bytes) : UInt64 :=
  let stripes := b.take (32 * (b.length / 32))
  let acc :=
    if stripes.isEmpty then prime5
    else ((partsOf 31 stripes).foldl Lanes.absorb Lanes.start).merged
  settled (absorbRest (acc + UInt64.ofNat b.length) (b.drop stripes.length))

end JavaMend.Archive
