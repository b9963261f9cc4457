import JavaMend.Host.Records.Reader
import JavaMend.Host.Records.Value

/-!
# `Host.Records.Parts` — texts and their parts

A text is a row of records, and a record a row of fields. What stands between them is a character, blanks, or whatever
matches a regular expression. Matches can be replaced, and values can be laid into the places of a format.

## Contents
- **Separators.** `Separator`, `fieldSeparator`, `recordSeparator`; `fieldsOf`, `takeRecord?`.
- **Replacing.** `replacedBy`, `replaceFirst`, `replaceAllMatches`.
- **Parts of a text.** `substrOf`, `indexOf`.
- **Formats.** `FormFault`, `fillForm`.
- **Numbers.** `remainderOf`, `apply`.
-/

namespace JavaMend.Host.Records

open JavaMend Text

/-! ## Separators -/

/-- What stands between parts. -/
inductive Separator where
  /-- One blank or several; none counts at the ends. -/
  | blanks
  /-- Nothing: each character is a part. -/
  | nothing
  | char (c : Char)
  /-- Empty lines; none counts at the ends. -/
  | emptyLines
  | pattern (re : Re)

/-- The separator of fields that a text spells; `read` reads regular expressions. -/
def fieldSeparator {m : Type → Type} [Monad m] (read : Text → m Re) : Text → m Separator
  | []    => return .nothing
  | [' '] => return .blanks
  | [c]   => return .char c
  | t     => return .pattern (← read t)

/-- The separator of records that a text spells. -/
def recordSeparator {m : Type → Type} [Monad m] (read : Text → m Re) : Text → m Separator
  | []  => return .emptyLines
  | [c] => return .char c
  | t   => return .pattern (← read t)

/-- Where the matches are that are not empty, from a position on. `fuel` bounds their number. -/
def spansOf (re : Re) (h : Haystack) : Nat → Nat → List (Nat × Nat)
  | 0,        _ => []
  | fuel + 1, i =>
    match re.find? h i with
    | none     => []
    | some hit => if hit.start = hit.stop then spansOf re h fuel (hit.stop + 1) else (hit.start, hit.stop) :: spansOf re h fuel hit.stop

/-- The parts of a text around matches, from a position on. -/
def around (h : Haystack) : Nat → List (Nat × Nat) → List Text
  | i, []           => [h.part i h.chars.size]
  | i, (a, b) :: ss => h.part i a :: around h b ss

/-- The fields of a record. -/
def fieldsOf (s : Separator) (t : Text) : List Text :=
  if t.isEmpty then []
  else match s with
    | .nothing    => t.map fun c => [c]
    | .char c     => splitOn c t
    | .pattern re => let h := Haystack.ofText t; around h 0 (spansOf re h (t.length + 1) 0)
    | _           => wordsOf t
where
  /-- What stands between blanks. -/
  wordsOf (t : Text) : List Text :=
    let isGap (c : Char) : Bool := c == ' ' || c == '\t' || c == '\n'
    let (words, last) := t.foldr (fun c (words, word) =>
      if isGap c then (if word.isEmpty then (words, []) else (word :: words, [])) else (words, c :: word))
      (([], []) : List Text × Text)
    if last.isEmpty then words else last :: words

/-- A text up to a character, and what follows that; none if it is not in the text. -/
def cutAt? (c : Char) (t : Text) : Option (Text × Text) :=
  let found := t.takeWhile (· != c)
  match t.drop found.length with
  | []     => none
  | _ :: r => some (found, r)

/-- The lines of a text up to an empty one, and what follows. -/
def cutAtEmptyLine? : Text → Option (Text × Text)
  | '\n' :: '\n' :: r => some ([], r)
  | c :: r            => (cutAtEmptyLine? r).map fun (t, rest) => (c :: t, rest)
  | []                => none

/-- The first record of what is at hand of a text, and what follows; `whole` says that all of the text is at hand. None
    if there is no record, or if it may go on. -/
def takeRecord? (s : Separator) (whole : Bool) (t : Text) : Option (Text × Text) :=
  let rest (t : Text) : Option (Text × Text) := if whole && !t.isEmpty then some (t, []) else none
  match s with
  | .char c     => (cutAt? c t).or (rest t)
  | .emptyLines =>
    let t := t.dropWhile (· == '\n')
    (cutAtEmptyLine? t).or ((rest t).map fun (t, r) => (barePart '\n' t, r))
  | .pattern re =>
    if !whole then none
    else match spansOf re (.ofText t) 1 0 with
      | (a, b) :: _ => some (t.take a, t.drop b)
      | []          => rest t
  | _           => rest t

/-! ## Replacing -/

/-- What is put in the place of a match: in it an ampersand stands for the match, unless a backslash is before it. Of
    backslashes before an ampersand two stand for one. `held` of them were just passed. -/
def replacedBy (hit : Text) : Nat → Text → Text
  | held, '\\' :: r => replacedBy hit (held + 1) r
  | held, '&' :: r  => List.replicate (held / 2) '\\' ++ (if held % 2 = 0 then hit else ['&']) ++ replacedBy hit 0 r
  | held, c :: r    => List.replicate held '\\' ++ c :: replacedBy hit 0 r
  | held, []        => List.replicate held '\\'

/-- The text with the first match replaced. -/
def replaceFirst (re : Re) (by_ : Text) (t : Text) : Option Text :=
  let h := Haystack.ofText t
  (re.find? h 0).map fun hit => h.part 0 hit.start ++ replacedBy (h.part hit.start hit.stop) 0 by_ ++ h.part hit.stop h.chars.size

/-- The text from a position on with all matches replaced, and how many there are. An empty match does not count right
    behind another one. `fuel` bounds their number. -/
def replaceFrom (re : Re) (by_ : Text) (h : Haystack) : Nat → Nat → Option Nat → List Text × Nat
  | 0,        i, _    => ([h.part i h.chars.size], 0)
  | fuel + 1, i, last =>
    match re.find? h i with
    | none     => ([h.part i h.chars.size], 0)
    | some hit =>
      let before := h.part i hit.start
      if hit.start = hit.stop then
        let next := h.part hit.stop (hit.stop + 1)
        let (found, n) :=
          if hit.stop < h.chars.size then replaceFrom re by_ h fuel (hit.stop + 1) none else ([], 0)
        if last = some hit.start then (before :: next :: found, n)
        else (before :: replacedBy [] 0 by_ :: next :: found, n + 1)
      else
        let (found, n) := replaceFrom re by_ h fuel hit.stop (some hit.stop)
        (before :: replacedBy (h.part hit.start hit.stop) 0 by_ :: found, n + 1)

/-- The text with all matches replaced, and how many there are. -/
def replaceAllMatches (re : Re) (by_ : Text) (t : Text) : Text × Nat :=
  let h := Haystack.ofText t
  let (parts, n) := replaceFrom re by_ h (2 * h.chars.size + 2) 0 none
  (parts.flatten, n)

/-! ## Parts of a text -/

/-- The part of a text from a place on, and no longer than a length if there is one. A place before the text makes it
    longer by as much. -/
def substrOf (t : Text) (start : Float) (length : Option Float) : Text :=
  let b := wholePart start
  let rest := t.drop (max b 1 - 1).toNat
  match length with
  | none   => rest
  | some n => rest.take (wholePart n - min b 0).toNat

/-- The place of a part in a text, counted from 1; 0 if it is not in it. -/
def indexOf (part : Text) : Nat → Text → Nat
  | n, []     => if part.isEmpty then n + 1 else 0
  | n, c :: t => if startsWith part (c :: t) then n + 1 else indexOf part (n + 1) t

/-! ## Formats -/

/-- Why a format cannot be filled. -/
inductive FormFault where
  | tooFew
  /-- A place is of no known kind; which of them it is. -/
  | unknown (n : Nat)

/-- The whole number that a measure of a place stands for. -/
def measureOf (vs : List Value) : Measure → Option (Int × List Value)
  | .given n => some (n, vs)
  | .next    => match vs with
    | v :: vs => some (wholePart v.toNumber, vs)
    | []      => none

/-- A value in a place; none if there is no such kind of place. -/
def inSlot (convert : Text) (l : Layout) (kind : Char) (v : Value) : Option Text :=
  if kind = 'd' ∨ kind = 'i' then some (l.whole 'd' (wholePart v.toNumber))
  else if kind ∈ text "ouxX" then
    let n := wholePart v.toNumber
    some (l.whole kind (if n < 0 then n + Nat.pow 2 64 else n))
  else if kind ∈ text "eEfFgG" then some (l.amount kind (amountOf v.toNumber))
  else match kind with
    | 's' => some (l.chars (v.toText convert))
    | 'c' => some (l.word [match v with
      | .number x => Char.ofNat (wholePart x % 256).toNat
      | .both _ x => Char.ofNat (wholePart x % 256).toNat
      | v         => ((v.toText convert).head?).getD '\x00'])
    | _   => none

/-- Fill the places of a format with values; what comes of it before a fault. `number` counts the places, `fuel` bounds
    the parts. -/
def fillForm (convert : Text) : Nat → Nat → Text → List Value → List Text × Option FormFault
  | 0,        _,      _, _  => ([], none)
  | fuel + 1, number, t, vs =>
    let onward (shown : Text) (number : Nat) (r : Text) (vs : List Value) : List Text × Option FormFault :=
      let (found, fault) := fillForm convert fuel number r vs
      (shown :: found, fault)
    match t with
    | []              => ([], none)
    | '%' :: '%' :: r => onward ['%'] number r vs
    | '%' :: r        =>
      match readSlot "-+ #0" "hlLqjzt" r with
      | .error _         => ([], some (if vs.isEmpty then .tooFew else .unknown number))
      | .ok (slot, rest) =>
        let filled : Option (Layout × List Value) := do
          let (width, vs) ← measureOf vs slot.width
          match slot.precision with
          | none   => return (Layout.make slot.flags width none, vs)
          | some m => do
            let (precision, vs) ← measureOf vs m
            return (Layout.make slot.flags width (some precision), vs)
        match filled with
        | none             => ([], some .tooFew)
        | some (_, [])     => ([], some .tooFew)
        | some (l, v :: vs) =>
          match inSlot convert l slot.kind v with
          | some shown => onward shown (number + 1) rest vs
          | none       => ([], some (.unknown number))
    | c :: r          =>
      let piece := c :: r.takeWhile (· != '%')
      onward piece number (t.drop piece.length) vs

/-! ## Numbers -/

/-- The remainder of a division that rounds toward 0; it has the sign of the dividend. -/
def remainderOf (x y : Float) : Float :=
  match Amount.ofFloat x, Amount.ofFloat y with
  | .finite negative a b, .finite _ c d =>
    if c = 0 then 0.0 / 0.0 else (Amount.finite negative (a * d % (c * b)) (b * d)).toFloat
  | .finite _ _ _,        .infinite _   => x
  | _,                    _             => 0.0 / 0.0

/-- The result of an operation. -/
def Binary.apply : Binary → Float → Float → Float
  | .add,       x, y => x + y
  | .subtract,  x, y => x - y
  | .multiply,  x, y => x * y
  | .divide,    x, y => x / y
  | .remainder, x, y => remainderOf x y
  | .power,     x, y => x.pow y

end JavaMend.Host.Records
