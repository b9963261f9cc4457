import JavaMend.Toml.Value
import JavaMend.Text.Bytes
import JavaMend.Text.Numerals

/-!
# `Toml.Scalar` — keys, strings and numbers

The parts of a document that hold no other values. Each reader takes a text and returns what it read with the rest, or
nothing if the text does not open with such a part.

## Contents
- **White space.** `skipSpace`, `newline?`, `skipComment`, `skipLines`.
- **Escapes.** `escape?`.
- **Strings.** `basic?`, `literal?`, `basicLines?`, `literalLines?`, `string?`.
- **Numbers.** `integer?`, `isFloat`, `isTooLarge`.
- **Keys.** `simpleKey?`, `dottedKey?`, `key?`.
-/

namespace JavaMend.Toml

open JavaMend Text

/-- A reader takes a value off the start of a text. -/
abbrev Reader (α : Type) := Text → Option (α × Text)

/-! ## White space -/

/-- A blank or a tab. -/
def isSpace (c : Char) : Bool := c == ' ' || c == '\t'

/-- Drop blanks and tabs. -/
def skipSpace (t : Text) : Text := t.dropWhile isSpace

/-- What follows a line end. -/
def newline? : Text → Option Text
  | '\n' :: t         => some t
  | '\r' :: '\n' :: t => some t
  | _                 => none

/-- A character that may stand in a comment or a string: no control character but the tab. -/
def isPrintable (c : Char) : Bool := c == '\t' || (0x20 ≤ c.toNat && c.toNat != 0x7F)

/-- Drop a comment, if there is one. -/
def skipComment : Text → Text
  | '#' :: t => t.dropWhile isPrintable
  | t        => t

/-- Drop white space, comments and line ends. -/
def skipLines (t : Text) : Text :=
  let rest := skipComment (skipSpace t)
  match newline? rest with
  | some next => if next.length < t.length then skipLines next else next
  | none      => rest
termination_by t.length

/-! ## Escapes -/

/-- The character of a number of hexadecimal digits, and the rest. -/
def codePoint? (digits : Nat) (t : Text) : Option (Char × Text) := do
  let shown := t.take digits
  let values ← shown.mapM hexValue?
  let n := values.foldl (fun acc v => 16 * acc + v) 0
  if shown.length = digits ∧ n.isValidChar then return (Char.ofNat n, t.drop digits) else none

/-- The character that an escape stands for; the backslash is already taken. -/
def escape? : Reader Char
  | 'b' :: t  => some ('\x08', t)
  | 't' :: t  => some ('\t', t)
  | 'n' :: t  => some ('\n', t)
  | 'f' :: t  => some ('\x0c', t)
  | 'r' :: t  => some ('\r', t)
  | '"' :: t  => some ('"', t)
  | '\\' :: t => some ('\\', t)
  | 'u' :: t  => codePoint? 4 t
  | 'U' :: t  => codePoint? 8 t
  | _         => none

/-- An escaped line end: what follows the white space after the backslash, if that holds a line end. -/
def escapedNewline? (t : Text) : Option Text :=
  (newline? (skipSpace t)).map fun rest => rest.dropWhile fun c => isSpace c || c == '\n' || c == '\r'

/-! ## Strings -/

/-- The rest of a basic string up to its quote. `fuel` bounds the characters taken. -/
def basic? : Nat → Reader Text
  | 0,        _ => none
  | fuel + 1, t =>
    match t with
    | '"' :: rest  => some ([], rest)
    | '\\' :: rest => do
      let (c, rest) ← escape? rest
      let (more, rest) ← basic? fuel rest
      return (c :: more, rest)
    | c :: rest    =>
      if isPrintable c then (basic? fuel rest).map fun (more, rest) => (c :: more, rest) else none
    | []           => none

/-- The rest of a literal string up to its quote. -/
def literal? (t : Text) : Option (Text × Text) :=
  let shown := t.takeWhile fun c => isPrintable c && c != '\''
  match t.drop shown.length with
  | '\'' :: rest => some (shown, rest)
  | _            => none

/-- The end of a string over several lines: three quotes, before which up to two more belong to the string. -/
def closing? (quote : Char) (t : Text) : Option (Text × Text) :=
  let quotes := min 5 (t.takeWhile (· == quote)).length
  if quotes < 3 then none else some (List.replicate (quotes - 3) quote, t.drop quotes)

/-- The rest of a basic string over several lines. -/
def basicLines? : Nat → Reader Text
  | 0,        _ => none
  | fuel + 1, t =>
    match closing? '"' t with
    | some found => some found
    | none =>
      match t with
      | '\\' :: rest =>
        match escapedNewline? rest with
        | some rest => basicLines? fuel rest
        | none => do
          let (c, rest) ← escape? rest
          let (more, rest) ← basicLines? fuel rest
          return (c :: more, rest)
      | c :: rest =>
        match newline? t with
        | some rest => (basicLines? fuel rest).map fun (more, rest) => ('\n' :: more, rest)
        | none      =>
          if isPrintable c then (basicLines? fuel rest).map fun (more, rest) => (c :: more, rest) else none
      | [] => none

/-- The rest of a literal string over several lines. -/
def literalLines? : Nat → Reader Text
  | 0,        _ => none
  | fuel + 1, t =>
    match closing? '\'' t with
    | some found => some found
    | none =>
      match newline? t, t with
      | some rest, _         => (literalLines? fuel rest).map fun (more, rest) => ('\n' :: more, rest)
      | none,      c :: rest =>
        if isPrintable c then (literalLines? fuel rest).map fun (more, rest) => (c :: more, rest) else none
      | none,      []        => none

/-- Drop a line end right after opening quotes. -/
def skipNewline (t : Text) : Text := (newline? t).getD t

/-- A string of any kind. -/
def string? (t : Text) : Option (Text × Text) :=
  match t with
  | '"' :: '"' :: '"' :: rest    => basicLines? (rest.length + 1) (skipNewline rest)
  | '"' :: rest                  => basic? (rest.length + 1) rest
  | '\'' :: '\'' :: '\'' :: rest => literalLines? (rest.length + 1) (skipNewline rest)
  | '\'' :: rest                 => literal? rest
  | _                            => none

/-! ## Numbers -/

/-- The digits of a number whose underscores each stand between two digits. -/
def digits? (isDigit : Char → Bool) (t : Text) : Option Text :=
  let parts := splitOn '_' t
  if parts.all fun p => !p.isEmpty && p.all isDigit then some parts.flatten else none

/-- The value of digits to a base. -/
def baseValue (base : Nat) (ds : Text) : Nat :=
  ds.foldl (fun acc c => base * acc + (hexValue? c).getD 0) 0

/-- A number to a base other than ten, if it fits a signed word of 64 bits. -/
def based? (base : Nat) (isDigit : Char → Bool) (t : Text) : Option Int := do
  let n := baseValue base (← digits? isDigit t)
  if n < Nat.pow 2 63 then return n else none

/-- The digits of a decimal number without sign; only 0 itself opens with 0. -/
def decimalDigits? (t : Text) : Option Text := do
  let ds ← digits? isAsciiDigit t
  if ds.head? == some '0' && ds.length != 1 then none else return ds

/-- The whole number that a word stands for. -/
def integer? (word : Text) : Option Int :=
  match word with
  | '0' :: 'x' :: ds => based? 16 (fun c => (hexValue? c).isSome) ds
  | '0' :: 'o' :: ds => based? 8 (fun c => '0' ≤ c && c ≤ '7') ds
  | '0' :: 'b' :: ds => based? 2 (fun c => c == '0' || c == '1') ds
  | '-' :: ds        => (decimalDigits? ds).bind fun ds => readInt? ('-' :: ds)
  | '+' :: ds        => (decimalDigits? ds).bind readInt?
  | ds               => (decimalDigits? ds).bind readInt?

/-- The exponent that a word stands for: digits after an optional sign. -/
def exponent? (word : Text) : Option Int :=
  let value := fun (ds : Text) => (digits? isAsciiDigit ds).map (baseValue 10)
  match word with
  | '-' :: ds => (value ds).map fun n => -(n : Int)
  | '+' :: ds => (value ds).map Int.ofNat
  | ds        => (value ds).map Int.ofNat

/-- The word is the exponent of a number: digits after an optional sign. -/
def isExponent (word : Text) : Bool :=
  match word with
  | '-' :: ds => (digits? isAsciiDigit ds).isSome
  | '+' :: ds => (digits? isAsciiDigit ds).isSome
  | ds        => (digits? isAsciiDigit ds).isSome

/-- The word, without sign, is a number with a fraction, an exponent or both. -/
def isUnsignedFloat (word : Text) : Bool :=
  let isMark := fun c => c == 'e' || c == 'E'
  let mantissa := word.takeWhile fun c => !isMark c
  let exponent := word.drop mantissa.length
  let exponentOk := exponent.isEmpty || isExponent (exponent.drop 1)
  match splitOn '.' mantissa with
  | [whole]           => !exponent.isEmpty && exponentOk && (decimalDigits? whole).isSome
  | [whole, fraction] => exponentOk && (decimalDigits? whole).isSome && (digits? isAsciiDigit fraction).isSome
  | _                 => word == text "inf" || word == text "nan"

/-- The word is a number that is not written as a whole one. -/
def isFloat (word : Text) : Bool :=
  let bare := match word with
    | '-' :: ds => ds
    | '+' :: ds => ds
    | ds        => ds
  isUnsignedFloat bare || bare == text "inf" || bare == text "nan"

/-- `digits · 10 ^ exponent` is nearer to `2 ^ 1024` than to the largest number of the binary format of 64 bits, or lies
    half way between them. An exponent beyond the bounds of that format decides by itself. -/
def exceedsDouble (digits : Nat) (exponent : Int) : Bool :=
  let limit := Nat.pow 2 1024 - Nat.pow 2 970
  let magnitude : Int := (Nat.toDigits 10 digits).length + exponent
  if digits = 0 || magnitude < 300 then false
  else if 320 < magnitude then true
  else if 0 ≤ exponent then limit ≤ digits * Nat.pow 10 exponent.toNat
  else limit * Nat.pow 10 (-exponent).toNat ≤ digits

/-- The number with a fraction or an exponent has no minus sign and is rounded to infinity. -/
def isTooLarge (word : Text) : Bool :=
  let bare := word.filter fun c => c != '_'
  let mantissa := bare.takeWhile fun c => c != 'e' && c != 'E'
  let exponent := (exponent? (bare.drop (mantissa.length + 1))).getD 0
  let whole := mantissa.takeWhile (· != '.')
  let fraction := mantissa.drop (whole.length + 1)
  let digits := ((whole ++ fraction).filter isAsciiDigit).foldl (fun n c => 10 * n + digitValue c) 0
  word.head? != some '-' && exceedsDouble digits (exponent - fraction.length)

/-! ## Keys -/

/-- A character of a key without quotes. -/
def isBareKey (c : Char) : Bool := isAsciiUpper c || isAsciiLower c || isAsciiDigit c || c == '_' || c == '-'

/-- One part of a key. -/
def simpleKey? (t : Text) : Option (Text × Text) :=
  match t with
  | '"' :: rest  => basic? (rest.length + 1) rest
  | '\'' :: rest => literal? rest
  | _            =>
    let key := t.takeWhile isBareKey
    if key.isEmpty then none else some (key, t.drop key.length)

/-- A key: parts between dots, with white space around each. The parts before the last one, and the last one. -/
def dottedKey? : Nat → Reader (List Text × Text)
  | 0,        _ => none
  | fuel + 1, t => do
    let (key, rest) ← simpleKey? (skipSpace t)
    match skipSpace rest with
    | '.' :: rest =>
      let ((path, last), rest) ← dottedKey? fuel rest
      return ((key :: path, last), rest)
    | rest => return (([], key), rest)

/-- The number of parts that is too many for a key, and the depth that is too great for nested values. -/
def nestingLimit : Nat := 80

/-- A key of fewer parts than the limit. -/
def key? (t : Text) : Option ((List Text × Text) × Text) :=
  (dottedKey? (t.length + 1) t).filter fun ((path, _), _) => path.length + 1 < nestingLimit

end JavaMend.Toml
