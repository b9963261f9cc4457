import JavaMend.Text.Bytes
import JavaMend.Text.Numerals

/-!
# `Host.Number.Amount` — numbers with fractions

An amount is a fraction, an infinity or no number. It is read from a text, rounded to the amounts that a binary format
with a given number of digits has, and spelled with decimal digits; a tie goes to the even neighbour.

## Contents
- **Amounts.** `Amount`, `Amount.ofInt`, `Amount.ofFloat`, `Amount.toFloat`.
- **Rounding.** `divRound`, `BinaryFormat`, `Amount.rounded`.
- **Digits.** `fixedDigits`, `decimalExponent`, `scientificDigits`.
- **Reading.** `leadingAmount?`.
-/

namespace JavaMend.Host

open JavaMend Text

/-! ## Amounts -/

/-- A number that may have a fraction. -/
inductive Amount where
  /-- A fraction; the denominator is not 0. -/
  | finite (negative : Bool) (num den : Nat)
  | infinite (negative : Bool)
  | nan (negative : Bool)
deriving DecidableEq, Repr

namespace Amount

/-- A whole number. -/
def ofInt (n : Int) : Amount := .finite (decide (n < 0)) n.natAbs 1

/-- A power of two, as numerator and denominator. -/
def powTwo (e : Int) : Nat × Nat := if e < 0 then (1, Nat.pow 2 e.natAbs) else (Nat.pow 2 e.natAbs, 1)

/-- The amount that a machine number is. -/
def ofFloat (x : Float) : Amount :=
  let bits := x.toBits.toNat
  let negative := bits / Nat.pow 2 63 == 1
  let exponent := bits / Nat.pow 2 52 % 2048
  let fraction := bits % Nat.pow 2 52
  if exponent = 2047 then (if fraction = 0 then .infinite negative else .nan negative)
  else
    let mantissa := if exponent = 0 then fraction else fraction + Nat.pow 2 52
    let (num, den) := powTwo ((max exponent 1 : Nat) - 1075)
    .finite negative (mantissa * num) den

/-- The sign of an amount. -/
def isNegative : Amount → Bool
  | .finite n _ _ => n
  | .infinite n   => n
  | .nan n        => n

end Amount

/-! ## Rounding -/

/-- A quotient rounded to the nearest whole number. -/
def divRound (num den : Nat) : Nat :=
  let q := num / den
  let twice := 2 * (num % den)
  if twice < den then q else if den < twice then q + 1 else q + q % 2

/-- A binary format: the digits of its numbers, its least and its greatest exponent. -/
structure BinaryFormat where
  digits : Nat
  least : Int
  greatest : Int

/-- Machine numbers of 64 bits. -/
def double : BinaryFormat := ⟨53, -1074, 971⟩

/-- Machine numbers of 80 bits. -/
def extended : BinaryFormat := ⟨64, -16445, 16320⟩

namespace Amount

/-- The mantissa and the exponent of a fraction that is not 0 in a format. -/
def binaryParts (f : BinaryFormat) (num den : Nat) : Nat × Int :=
  let guess : Int := (num.log2 : Int) - den.log2 - f.digits
  let at_ (e : Int) : Nat :=
    let (n, d) := powTwo e
    divRound (num * d) (den * n)
  -- The guess is too small by one or two at most.
  let e := if at_ guess < Nat.pow 2 f.digits then guess
    else if at_ (guess + 1) < Nat.pow 2 f.digits then guess + 1 else guess + 2
  let e := max e f.least
  (at_ e, e)

/-- The nearest amount that a format has. -/
def rounded (f : BinaryFormat) : Amount → Amount
  | .finite negative num den =>
    if num = 0 then .finite negative 0 1
    else
      let (m, e) := binaryParts f num den
      let (n, d) := powTwo e
      if f.greatest < e ∨ (f.greatest = e ∧ Nat.pow 2 f.digits ≤ m) then .infinite negative
      else .finite negative (m * n) d
  | a                        => a

/-- The machine number that is nearest to an amount. -/
def toFloat : Amount → Float
  | .finite negative num den =>
    let size :=
      if num = 0 then 0
      else
        let (m, e) := binaryParts double num den
        if double.greatest < e then Float.ofBits 0x7ff0000000000000 else Float.scaleB m.toFloat e
    if negative then -size else size
  | .infinite negative       => Float.ofBits (if negative then 0xfff0000000000000 else 0x7ff0000000000000)
  | .nan negative            => Float.ofBits (if negative then 0xfff8000000000000 else 0x7ff8000000000000)

end Amount

/-! ## Digits -/

/-- Digits with zeros before them, at least so many. -/
def zeroPadded (least : Nat) (digits : Text) : Text := List.replicate (least - digits.length) '0' ++ digits

/-- A fraction with so many places after the point; the digits before and after it. -/
def fixedDigits (num den places : Nat) : Text × Text :=
  let digits := zeroPadded (places + 1) (ofNat (divRound (num * Nat.pow 10 places) den))
  (digits.take (digits.length - places), digits.drop (digits.length - places))

/-- The exponent of the first decimal digit of a fraction that is not 0. -/
def decimalExponent (num den : Nat) : Int :=
  let guess : Int := (ofNat num).length - (ofNat den).length
  let fits := if guess < 0 then den ≤ num * Nat.pow 10 guess.natAbs else den * Nat.pow 10 guess.natAbs ≤ num
  if fits then guess else guess - 1

/-- The first decimal digits of a fraction, one and `places` more, and the exponent of the first. -/
def scientificDigits (num den places : Nat) : Text × Int :=
  if num = 0 then (List.replicate (places + 1) '0', 0)
  else
    let scaledBy (e : Int) : Nat :=
      let shift := (places : Int) - e
      if shift < 0 then divRound num (den * Nat.pow 10 shift.natAbs)
      else divRound (num * Nat.pow 10 shift.natAbs) den
    let e := decimalExponent num den
    let n := scaledBy e
    -- Rounding may lead to one more digit.
    if n < Nat.pow 10 (places + 1) then (ofNat n, e) else (ofNat (n / 10), e + 1)

/-! ## Reading -/

/-- The digit is octal. -/
def isOctal (c : Char) : Bool := '0' ≤ c && c ≤ '7'

/-- The value of digits in a base. -/
def ofDigits (base : Nat) (digits : Text) : Nat :=
  digits.foldl (fun n c => base * n + (hexValue? c).getD 0) 0

/-- Letters at the start of a text, in either case. -/
def dropWord? (word : Text) (t : Text) : Option Text :=
  if (t.take word.length).map Char.toLower = word then some (t.drop word.length) else none

/-- The digits of a number, those after the point, and what follows them. -/
def digitParts (isDigit : Char → Bool) (t : Text) : Text × Text × Text :=
  let whole := t.takeWhile isDigit
  match t.drop whole.length with
  | '.' :: r =>
    let fraction := r.takeWhile isDigit
    if whole.isEmpty && fraction.isEmpty then ([], [], t) else (whole, fraction, r.drop fraction.length)
  | r        => (whole, [], r)

/-- An exponent after its letter, and what follows it; 0 if there is none. -/
def exponentPart (letter : Char) (t : Text) : Int × Text :=
  match t with
  | []     => (0, [])
  | c :: r =>
    if c.toLower ≠ letter then (0, t)
    else
      let (negative, digits) := match r with
        | '-' :: r => (true, r)
        | '+' :: r => (false, r)
        | r        => (false, r)
      let shown := digits.takeWhile isAsciiDigit
      if shown.isEmpty then (0, t)
      else
        -- Beyond this all numbers are 0 or infinite.
        let n : Int := min (ofDigits 10 shown) 20000
        (if negative then -n else n, digits.drop shown.length)

/-- A power as numerator and denominator. -/
def powerOf (base : Nat) (e : Int) : Nat × Nat :=
  if e < 0 then (1, Nat.pow base e.natAbs) else (Nat.pow base e.natAbs, 1)

/-- The amount without a sign at the start of a text, and what follows it. -/
def leadingSize? (negative : Bool) (t : Text) : Option (Amount × Text) :=
  match (dropWord? (text "infinity") t).or (dropWord? (text "inf") t) with
  | some r => some (.infinite negative, r)
  | none   =>
    match dropWord? (text "nan") t with
    | some r => some (.nan negative, r)
    | none   =>
      let isHex (c : Char) : Bool := (hexValue? c.toLower).isSome
      let hex? : Option (Amount × Text) := do
        let r ← dropWord? (text "0x") t
        let (whole, fraction, r) := digitParts isHex r
        if whole.isEmpty ∧ fraction.isEmpty then none
        else
          let (e, r) := exponentPart 'p' r
          let (n, d) := powerOf 2 e
          some (.finite negative (ofDigits 16 ((whole ++ fraction).map Char.toLower) * n)
            (Nat.pow 16 fraction.length * d), r)
      hex?.or (
        let (whole, fraction, r) := digitParts isAsciiDigit t
        if whole.isEmpty ∧ fraction.isEmpty then none
        else
          let (e, r) := exponentPart 'e' r
          let (n, d) := powerOf 10 e
          some (.finite negative (ofDigits 10 (whole ++ fraction) * n) (Nat.pow 10 fraction.length * d), r))

/-- The character leaves space. -/
def isSpace (c : Char) : Bool := c == ' ' || ('\t' ≤ c && c ≤ '\r')

/-- The amount at the start of a text, after blanks and a sign, and what follows it. -/
def leadingAmount? (t : Text) : Option (Amount × Text) :=
  match t.dropWhile isSpace with
  | '-' :: r => leadingSize? true r
  | '+' :: r => leadingSize? false r
  | r        => leadingSize? false r

end JavaMend.Host
