import JavaMend.Host.Number.Amount

/-!
# `Host.Number.Layout` — values in the places of a format

A format is a text with places for values. A place says how a value is spelled and how wide it is at least.

## Contents
- **Layouts.** `Layout`, `Layout.place`, `Layout.word`.
- **Spellings.** `Layout.whole`, `Layout.amount`.
- **Formats.** `Measure`, `Slot`, `Directive`, `readSlot`.
-/

namespace JavaMend.Host

open JavaMend Text

/-! ## Layouts -/

/-- How a value is laid out in its place. -/
structure Layout where
  /-- The flags of the place. -/
  flags : Text
  width : Nat
  precision : Option Nat

namespace Layout

/-- The flag is set. -/
def has (l : Layout) (flag : Char) : Bool := l.flags.elem flag

/-- A layout with a width that may be negative, and a precision that may be. -/
def make (flags : Text) (width : Int) (precision : Option Int) : Layout :=
  { flags := if width < 0 then '-' :: flags else flags
    width := width.natAbs
    precision := (precision.filter fun p => 0 ≤ p).map Int.natAbs }

/-- Fill the place of a word. -/
def word (l : Layout) (t : Text) : Text :=
  let fill := List.replicate (l.width - t.length) ' '
  if l.has '-' then t ++ fill else fill ++ t

/-- Fill the place of a number: a sign or mark, then digits, before which zeros may stand. -/
def place (l : Layout) (zeros : Bool) (mark digits : Text) : Text :=
  if zeros && l.has '0' && !l.has '-' then mark ++ zeroPadded (l.width - mark.length) digits
  else l.word (mark ++ digits)

/-- The sign of a number. -/
def sign (l : Layout) (negative : Bool) : Text :=
  if negative then ['-'] else if l.has '+' then ['+'] else if l.has ' ' then [' '] else []

/-- A text, of which no more than the precision is shown. -/
def chars (l : Layout) (t : Text) : Text :=
  l.word (match l.precision with
    | some n => t.take n
    | none   => t)

/-! ## Spellings -/

/-- A whole number; `kind` is `d`, `i`, `u`, `o`, `x` or `X`. -/
def whole (l : Layout) (kind : Char) (n : Int) : Text :=
  let size := n.natAbs
  let base := if kind = 'o' then 8 else if kind = 'x' ∨ kind = 'X' then 16 else 10
  let digits := if size = 0 ∧ l.precision = some 0 then [] else Nat.toDigits base size
  let digits := if kind = 'X' then digits.map Char.toUpper else digits
  let digits := zeroPadded (l.precision.getD 1) digits
  let digits := if kind = 'o' ∧ l.has '#' ∧ digits.head? ≠ some '0' then '0' :: digits else digits
  let mark :=
    if kind = 'd' ∨ kind = 'i' then l.sign (decide (n < 0))
    else if base = 16 ∧ l.has '#' ∧ size ≠ 0 then ['0', kind]
    else []
  l.place l.precision.isNone mark digits

/-- Digits around a point; the point is left out if nothing follows it. -/
def pointed (l : Layout) (whole fraction : Text) : Text :=
  if fraction.isEmpty && !l.has '#' then whole else whole ++ '.' :: fraction

/-- An exponent with at least two digits. -/
def exponentText (letter : Char) (e : Int) : Text :=
  letter :: (if e < 0 then '-' else '+') :: zeroPadded 2 (ofNat e.natAbs)

/-- A fraction without its sign; `kind` is `f`, `e` or `g`. -/
def size (l : Layout) (kind : Char) (num den : Nat) : Text :=
  let precision := l.precision.getD 6
  let trimmed (fraction : Text) : Text :=
    if l.has '#' then fraction else (fraction.reverse.dropWhile (· == '0')).reverse
  match kind with
  | 'f' => let (whole, fraction) := fixedDigits num den precision; l.pointed whole fraction
  | 'e' =>
    let (digits, e) := scientificDigits num den precision
    l.pointed (digits.take 1) (digits.drop 1) ++ exponentText 'e' e
  | _   =>
    let precision := max precision 1
    let (digits, e) := scientificDigits num den (precision - 1)
    if e < -4 ∨ (precision : Int) ≤ e then
      l.pointed (digits.take 1) (trimmed (digits.drop 1)) ++ exponentText 'e' e
    else
      let (whole, fraction) := fixedDigits num den (precision - 1 - e).toNat
      l.pointed whole (trimmed fraction)

/-- An amount; `kind` is `f`, `e`, `g` or the capital letter. -/
def amount (l : Layout) (kind : Char) (a : Amount) : Text :=
  let cased (t : Text) : Text := if kind.isUpper then t.map Char.toUpper else t
  match a with
  | .finite negative num den => l.place true (l.sign negative) (cased (l.size kind.toLower num den))
  | .infinite negative       => l.place false (l.sign negative) (cased (text "inf"))
  | .nan negative            => l.place false (l.sign negative) (cased (text "nan"))

end Layout

/-! ## Formats -/

/-- A width or a precision: given in the format, or by the next argument. -/
inductive Measure where
  | given (n : Nat)
  | next
deriving DecidableEq, Repr

/-- A place for a value. -/
structure Slot where
  flags : Text
  width : Measure
  precision : Option Measure
  kind : Char
  /-- How it is spelled. -/
  source : Text

/-- A measure at the start of a text. -/
def readMeasure (t : Text) : Measure × Text :=
  match t with
  | '*' :: r => (.next, r)
  | t        =>
    let digits := t.takeWhile isAsciiDigit
    (.given (ofDigits 10 digits), t.drop digits.length)

/-- The place that a text describes after a percent sign, with the given flags and length letters; what was read of it
    if its kind is missing. -/
def readSlot (flagChars lengthChars : String) (t : Text) : Except Text (Slot × Text) :=
  let flags := t.takeWhile fun c => c ∈ flagChars.toList
  let (width, r) := readMeasure (t.drop flags.length)
  let (precision, r) := match r with
    | '.' :: r => let (m, r) := readMeasure r; (some m, r)
    | r        => (none, r)
  match r.dropWhile fun c => c ∈ lengthChars.toList with
  | []        => .error ('%' :: t)
  | kind :: r => .ok (⟨flags, width, precision, kind, '%' :: t.take (t.length - r.length)⟩, r)

end JavaMend.Host
