import JavaMend.Host.Number.Layout
import JavaMend.Text.Order
import Std.Data.HashMap

/-!
# `Host.Records.Value` — values and tables of programs over records

A value is a number, a text, or a text from outside that looks like a number and is then both. Tables keep values under
keys, and list their keys in the order of their places.

## Contents
- **Values.** `Value`; `numberOf`, `looksNumeric`, `Value.ofInput`.
- **Conversions.** `Value.toNumber`, `wholeText?`, `numberText`, `Value.toText`, `Value.holds`.
- **Comparing.** `Value.compare`.
- **Tables.** `Key`, `Entry`, `Table`; `Table.find?`, `Table.set`, `Table.erase`, `Table.keys`.
-/

namespace JavaMend.Host.Records

open JavaMend Text

/-! ## Values -/

/-- A value. -/
inductive Value where
  /-- Nothing was ever assigned. -/
  | unset
  | number (x : Float)
  | chars (t : Text)
  /-- A text from outside that looks like a number. -/
  | both (t : Text) (x : Float)

/-- The number at the start of a text; 0 if there is none. -/
def numberOf (t : Text) : Float := match leadingAmount? t with
  | some (a, _) => a.toFloat
  | none        => 0

/-- The text is a number with nothing but blanks around it. -/
def looksNumeric (t : Text) : Bool :=
  let core := ((t.dropWhile isSpace).reverse.dropWhile isSpace).reverse
  let isStart (c : Char) : Bool := isAsciiDigit c || c == '+' || c == '-' || c == '.'
  let isEnd (c : Char) : Bool := isAsciiDigit c || c == '.'
  core.head?.any isStart && core.getLast?.any isEnd && match leadingAmount? core with
    | some (_, rest) => rest.isEmpty
    | none           => false

/-- The value of a text from outside. -/
def Value.ofInput (t : Text) : Value := if looksNumeric t then .both t (numberOf t) else .chars t

/-- The value of a condition. -/
def Value.ofBool (b : Bool) : Value := .number (if b then 1 else 0)

/-- The value of a count. -/
def Value.ofNat (n : Nat) : Value := .number n.toFloat

/-! ## Conversions -/

/-- The number that a value stands for. -/
def Value.toNumber : Value → Float
  | .unset    => 0
  | .number x => x
  | .chars t  => numberOf t
  | .both _ x => x

/-- The exact amount of a number. What is no number has a sign: it comes from arithmetic, which gives it one. -/
def amountOf (x : Float) : Amount := match Amount.ofFloat x with
  | .nan _ => .nan true
  | a      => a

/-- The whole number that a number is. -/
def wholeOf? (x : Float) : Option Int :=
  match Amount.ofFloat x with
  | .finite negative num den =>
    if num % den = 0 then some (if negative then -((num / den : Nat) : Int) else (num / den : Nat)) else none
  | _                        => none

/-- The whole part of a number, within the bounds of machine integers; negative numbers only have half of them. -/
def wholePart (x : Float) : Int :=
  match Amount.ofFloat x with
  | .finite negative num den =>
    let size := num / den
    if !negative then min size (Nat.pow 2 64 - 1)
    else if size ≤ Nat.pow 2 63 then -(size : Int)
    else -(Nat.pow 2 63 - 1 : Nat)
  | .infinite negative       => if negative then -(Nat.pow 2 63 : Nat) else (Nat.pow 2 64 - 1 : Nat)
  | .nan _                   => -(Nat.pow 2 63 : Nat)

/-- The text of a number that is whole and not too great. -/
def wholeText? (x : Float) : Option Text := do
  let n ← wholeOf? x
  if n < -(Nat.pow 2 63 : Nat) ∨ (Nat.pow 2 64 : Nat) < n then none
  else some (ofInt (min n (Nat.pow 2 64 - 1 : Nat)))
where
  /-- A whole number with its sign. -/
  ofInt (n : Int) : Text := if n < 0 then '-' :: ofNat n.natAbs else ofNat n.natAbs

/-- A number in a format that has one place. -/
def inFormat (format : Text) (x : Float) : Text :=
  let before := format.takeWhile (· != '%')
  match readSlot "-+ #0" "hlLqjzt" (format.drop (before.length + 1)) with
  | .error _      => format
  | .ok (s, rest) =>
    let measure : Measure → Nat
      | .given n => n
      | .next    => 0
    let layout : Layout := ⟨s.flags, measure s.width, s.precision.map measure⟩
    let shown :=
      if s.kind ∈ text "diouxX" then layout.whole s.kind (wholePart x)
      else layout.amount s.kind (amountOf x)
    before ++ shown ++ rest

/-- The text of a number: whole numbers have a text of their own, others have the one of the format. -/
def numberText (format : Text) (x : Float) : Text := (wholeText? x).getD (inFormat format x)

/-- The text that a value stands for. -/
def Value.toText (format : Text) : Value → Text
  | .unset    => []
  | .number x => numberText format x
  | .chars t  => t
  | .both t _ => t

/-- The value counts as true. -/
def Value.holds : Value → Bool
  | .unset    => false
  | .number x => x != 0
  | .chars t  => !t.isEmpty
  | .both _ x => x != 0

/-! ## Comparing -/

/-- The value is compared as a number with numbers. -/
def Value.isNumeric : Value → Bool
  | .chars _ => false
  | _        => true

/-- The order of two numbers; one that is no number is not before any other. -/
def compareNumbers (x y : Float) : Ordering := if x < y then .lt else if x == y then .eq else .gt

/-- The order of two values: as numbers if both may be, and otherwise as texts. -/
def Value.compare (format : Text) (a b : Value) : Ordering :=
  if a.isNumeric && b.isNumeric then compareNumbers a.toNumber b.toNumber
  else
    let s := a.toText format
    let t := b.toText format
    if s = t then .eq else if before s t then .lt else .gt

/-! ## Tables -/

/-- A key, and the whole number that it was given as. -/
structure Key where
  word : Text
  number : Option Int

/-- What stands in a table under a key. Keys that share a place are listed the other way round as they were last
    used, by their words or by their numbers. -/
structure Entry where
  value : Value
  /-- When it was last used by its word, if ever. -/
  byWord : Option Nat
  /-- Its number, and when it was last used by it. -/
  byNumber : Option (Int × Nat)

/-- A table. -/
structure Table where
  entries : Std.HashMap Text Entry
  /-- How often it was used. -/
  clock : Nat
  /-- Keys were used by their words. -/
  worded : Bool
  /-- How many places there are for keys. -/
  places : Nat

namespace Table

/-- How many places there are at first. -/
def firstPlaces : Nat := 64

/-- How many keys there may be for each place. -/
def crowd : Nat := 12

/-- The table without keys. -/
def empty : Table := ⟨∅, 0, false, firstPlaces⟩

/-- A word is mixed into a number of 32 bits, character by character. -/
def mix (word : Text) : Nat :=
  word.foldl (fun h c => Nat.xor h c.toNat * 16777619 % Nat.pow 2 32) 2166136261

/-- The place of a word. -/
def placeOf (t : Table) (word : Text) : Nat := mix word % t.places

/-- The place of a number. -/
def placeOfNumber (t : Table) (n : Int) : Nat := (n % (t.places : Int)).toNat

/-- The number of keys. -/
def size (t : Table) : Nat := t.entries.size

/-- Give a word to each key that has none so far, place by place. -/
def withWords (t : Table) : Table :=
  if t.worded then t
  else
    let numbered := t.entries.toList.filterMap fun (word, e) => match e.byWord, e.byNumber with
      | none, some (n, stamp) => some (t.placeOfNumber n, stamp, word, e)
      | _,    _               => none
    let sorted := numbered.mergeSort fun a b => Nat.blt a.1 b.1 || (a.1 == b.1 && Nat.ble b.2.1 a.2.1)
    sorted.foldl (fun t (_, _, word, e) =>
      { t with entries := t.entries.insert word { e with byWord := some t.clock }, clock := t.clock + 1 })
      { t with worded := true }

/-- Make room for one more key. -/
def withRoom (t : Table) : Table :=
  if t.places * crowd < t.size + 1 then { t with places := 2 * t.places } else t

/-- Use an entry by its key. -/
def touch (t : Table) (k : Key) (e : Entry) : Table × Entry :=
  match k.number, e.byNumber with
  | some n, some _ => (t, { e with byNumber := some (n, t.clock) })
  | some n, none   => (t, { e with byWord := some t.clock, byNumber := some (n, t.clock) })
  | none,   _      => (t, { e with byWord := some t.clock })

/-- Put an entry back as used. -/
def put (t : Table) (k : Key) (e : Entry) : Table :=
  let t := if k.number.isNone then t.withWords else t
  let e := ((t.entries[k.word]?).map fun old => { old with value := e.value }).getD e
  let (t, e) := t.touch k e
  { t with entries := t.entries.insert k.word e, clock := t.clock + 1 }

/-- What stands under a key; the key is used by that. -/
def find? (t : Table) (k : Key) : Option Value × Table :=
  match t.entries[k.word]? with
  | none   => (none, if k.number.isNone then t.withWords else t)
  | some e => (some e.value, t.put k e)

/-- Put a value under a key. -/
def set (t : Table) (k : Key) (v : Value) : Table :=
  match t.entries[k.word]? with
  | some e => t.put k { e with value := v }
  | none   =>
    let t := t.withRoom
    let t := if k.number.isNone then t.withWords else t
    let e : Entry :=
      { value := v
        byWord := if t.worded then some t.clock else none
        byNumber := k.number.map fun n => (n, t.clock) }
    { t with entries := t.entries.insert k.word e, clock := t.clock + 1 }

/-- Remove a key. -/
def erase (t : Table) (k : Key) : Table := { t with entries := t.entries.erase k.word }

/-- The keys in the order of their places; among those of one place, what was last used comes first. -/
def keys (t : Table) : List Text :=
  let t := t.withWords
  let placed := t.entries.toList.map fun (word, e) => (t.placeOf word, e.byWord.getD 0, word)
  (placed.mergeSort fun a b => Nat.blt a.1 b.1 || (a.1 == b.1 && Nat.ble b.2.1 a.2.1)).map fun p => p.2.2

end Table

end JavaMend.Host.Records
