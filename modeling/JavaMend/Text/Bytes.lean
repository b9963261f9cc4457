import JavaMend.Text

/-!
# `Text.Bytes` — text as bytes

Text is kept in files as UTF-8. Reading is strict where the text matters and lenient where it is only shown:
then each longest part of a broken sequence gives one replacement character.

## Contents
- `Bytes`, `utf8`, `ofUtf8?`, `ofUtf8Lenient`.
- `ofUtf8?_utf8`: what is written is read back.
- `ofBytes`, `toBytes`: one character for each byte.
- `hex`, `ofHex?`: bytes as pairs of lower-case hexadecimal digits.
-/

namespace JavaMend

/-- A sequence of bytes. -/
abbrev Bytes := List UInt8

namespace Text

/-- The UTF-8 form of a text. -/
def utf8 (t : Text) : Bytes := t.flatMap String.utf8EncodeChar

/-- The text of which the bytes are the UTF-8 form. -/
def ofUtf8? (b : Bytes) : Option Text := b.toByteArray.utf8Decode?.map Array.toList

/-- What is written is read back. -/
theorem ofUtf8?_utf8 (t : Text) : ofUtf8? (utf8 t) = some t := by
  have h : (utf8 t).toByteArray = t.utf8Encode := rfl
  simp [ofUtf8?, h]

/-- Different texts have different bytes. -/
theorem utf8_injective {s t : Text} (h : utf8 s = utf8 t) : s = t := by
  have hs := ofUtf8?_utf8 s
  rw [h, ofUtf8?_utf8] at hs
  exact (Option.some.inj hs).symm

/-! ## Lenient reading -/

/-- The ranges in which the bytes after a leading byte must lie; none for a byte that leads nothing. -/
def followers? (lead : UInt8) : Option (List (UInt8 × UInt8)) :=
  if lead < 0x80 then some []
  else if lead < 0xC2 then none
  else if lead < 0xE0 then some [(0x80, 0xBF)]
  else if lead == 0xE0 then some [(0xA0, 0xBF), (0x80, 0xBF)]
  else if lead == 0xED then some [(0x80, 0x9F), (0x80, 0xBF)]
  else if lead < 0xF0 then some [(0x80, 0xBF), (0x80, 0xBF)]
  else if lead == 0xF0 then some [(0x90, 0xBF), (0x80, 0xBF), (0x80, 0xBF)]
  else if lead < 0xF4 then some [(0x80, 0xBF), (0x80, 0xBF), (0x80, 0xBF)]
  else if lead == 0xF4 then some [(0x80, 0x8F), (0x80, 0xBF), (0x80, 0xBF)]
  else none

/-- How many of the bytes lie in the ranges, one by one from the start. -/
def countFollowers : List (UInt8 × UInt8) → Bytes → Nat
  | (lo, hi) :: rs, b :: bs => if lo ≤ b && b ≤ hi then 1 + countFollowers rs bs else 0
  | _,              _       => 0

/-- The bits that a leading byte contributes, by the number of its followers. -/
def leadBits (lead : UInt8) : Nat → Nat
  | 0 => lead.toNat
  | 1 => lead.toNat % 32
  | 2 => lead.toNat % 16
  | _ => lead.toNat % 8

/-- The text of bytes that need not be UTF-8: U+FFFD stands for each longest part of a broken sequence. -/
def ofUtf8Lenient : Bytes → Text
  | []        => []
  | lead :: bs =>
    match followers? lead with
    | none    => '\ufffd' :: ofUtf8Lenient bs
    | some rs =>
      let n := countFollowers rs bs
      let c :=
        if n = rs.length then
          Char.ofNat ((bs.take n).foldl (fun acc b => 64 * acc + b.toNat % 64) (leadBits lead n))
        else '\ufffd'
      c :: ofUtf8Lenient (bs.drop n)
termination_by b => b.length
decreasing_by all_goals (simp only [List.length_cons, List.length_drop]; omega)

/-! ## Bytes as characters -/

/-- The text that has one character for each byte, that of the same number. -/
def ofBytes (b : Bytes) : Text := b.map fun x => Char.ofNat x.toNat

/-- The bytes of a text that has one character for each. -/
def toBytes (t : Text) : Bytes := t.map fun c => UInt8.ofNat c.toNat

/-- No byte is lost. -/
theorem toBytes_ofBytes (b : Bytes) : toBytes (ofBytes b) = b := by
  simp only [toBytes, ofBytes, List.map_map]
  refine (List.map_congr_left fun x _ => ?_).trans (List.map_id b)
  have h : x.toNat.isValidChar := Or.inl (Nat.lt_trans x.toNat_lt (by decide))
  rw [Function.comp_apply, Char.ofNat, dif_pos h]
  exact UInt8.ofNat_toNat

/-! ## Hexadecimal -/

/-- The digit of a value below sixteen. -/
def hexDigit (n : Nat) : Char := if n < 10 then Char.ofNat (0x30 + n) else Char.ofNat (0x57 + n)

/-- The value of a hexadecimal digit. -/
def hexValue? (c : Char) : Option Nat :=
  if '0' ≤ c ∧ c ≤ '9' then some (c.toNat - 0x30)
  else if 'a' ≤ c ∧ c ≤ 'f' then some (c.toNat - 0x57)
  else if 'A' ≤ c ∧ c ≤ 'F' then some (c.toNat - 0x37)
  else none

/-- Bytes as pairs of lower-case hexadecimal digits. -/
def hex (b : Bytes) : Text := b.flatMap fun x => [hexDigit (x.toNat / 16), hexDigit (x.toNat % 16)]

/-- The bytes of pairs of hexadecimal digits. -/
def ofHex? : Text → Option Bytes
  | []          => some []
  | [_]         => none
  | a :: b :: t => do
    let hi ← hexValue? a
    let lo ← hexValue? b
    let rest ← ofHex? t
    return UInt8.ofNat (16 * hi + lo) :: rest

end Text
end JavaMend
