import JavaMend.Host.Number.Amount
import JavaMend.Host.Streams.Lines

/-!
# `Host.Streams.Sorting` — sorting lines

Lines are compared by keys, each of which is a part of the line with an order of its own, and then as a whole. A key goes
from a character of one field to a character of another; without a separator a field starts with the blanks before it.

## Contents
- **Orders.** `Manner`, `Manner.compare` and the orders it is made of.
- **Keys.** `KeyEnd`, `SortKey`, `readKey`, `SortKey.part`.
- **Sorting.** `SortPlan`, `SortPlan.compare`, `SortPlan.sorted`, `SortPlan.merge`, `SortPlan.distinct`, `sort`.
-/

namespace JavaMend.Host

open JavaMend Text

/-! ## Orders -/

/-- What is asked for in an order, as letters. -/
abbrev Manner := Text

/-- The first order that tells two things apart. -/
def thenBy (a : Ordering) (b : Unit → Ordering) : Ordering := if a == .eq then b () else a

/-- The order of texts by their characters. -/
def compareTexts : Text → Text → Ordering
  | [],      []      => .eq
  | [],      _ :: _  => .lt
  | _ :: _,  []      => .gt
  | a :: s,  b :: t  => if a.toNat < b.toNat then .lt else if b.toNat < a.toNat then .gt else compareTexts s t

theorem compareTexts_self (t : Text) : compareTexts t t = .eq := by
  induction t with
  | nil => rfl
  | cons c t ih => simp [compareTexts, ih]

/-- The blanks that part fields. -/
def isGap (c : Char) : Bool := c == ' ' || c == '\t'

/-- The decimal number at the start of a text: its sign, its digits as a number, and how many of them are places. -/
def decimalOf (t : Text) : Bool × Nat × Nat :=
  let t := t.dropWhile isGap
  let (negative, t) := match t with
    | '-' :: r => (true, r)
    | r        => (false, r)
  let (whole, fraction, _) := digitParts isAsciiDigit t
  (negative, ofDigits 10 (whole ++ fraction), fraction.length)

/-- The order of numbers with a sign. -/
def compareSigned (a b : Int) : Ordering := if a < b then .lt else if b < a then .gt else .eq

/-- The order of the decimal numbers at the start of texts. -/
def compareDecimals (s t : Text) : Ordering :=
  let (m, a, p) := decimalOf s
  let (n, b, q) := decimalOf t
  let a : Int := a * Nat.pow 10 q
  let b : Int := b * Nat.pow 10 p
  compareSigned (if m then -a else a) (if n then -b else b)

/-- The rank of a unit letter after a decimal number; units count before digits. -/
def unitRank (t : Text) : Int :=
  let (negative, n, _) := decimalOf t
  let r := (t.dropWhile isGap).dropWhile fun c => c == '-' || c == '.' || isAsciiDigit c
  let rank : Int := match r.head? with
    | some 'k' => 1
    | some c   => (((text "KMGTPEZYRQ").findIdx? (· == c)).map fun i => (i : Int) + 1).getD 0
    | none     => 0
  if n = 0 then 0 else if negative then -rank else rank

/-- The order of numbers with fractions and exponents at the start of texts; what is no number comes first. -/
def compareAmounts (s t : Text) : Ordering :=
  let rank : Option (Amount × Text) → Nat
    | none                    => 0
    | some (.nan _, _)        => 1
    | some (.infinite neg, _) => if neg then 2 else 4
    | some (.finite _ _ _, _) => 3
  let a := leadingAmount? s
  let b := leadingAmount? t
  match a, b with
  | some (.finite m x p, _), some (.finite n y q, _) =>
    let x : Int := x * q
    let y : Int := y * p
    compareSigned (if m then -x else x) (if n then -y else y)
  | _, _                                             => compareSigned (rank a) (rank b)

/-- The month that a text starts with, from 1 on; 0 if there is none. -/
def monthOf (t : Text) : Nat :=
  let name := ((t.dropWhile isGap).take 3).map Char.toUpper
  let months := ["JAN", "FEB", "MAR", "APR", "MAY", "JUN", "JUL", "AUG", "SEP", "OCT", "NOV", "DEC"]
  ((months.findIdx? fun m => m.toList == name).map (· + 1)).getD 0

/-- The rank of a character in names of versions; none stands for the end. -/
def versionRank : Option Char → Int
  | none   => 0
  | some c => if c = '~' then -1 else if isAsciiDigit c then 0 else if c.isAlpha then c.toNat else c.toNat + 256

/-- The order of names of versions: runs of digits count as numbers. `fuel` bounds the steps. -/
def compareVersionSteps : Nat → Text → Text → Ordering
  | 0,        _, _ => .eq
  | fuel + 1, s, t =>
    if s.isEmpty && t.isEmpty then .eq
    else
      let notDigit (c : Char) : Bool := !isAsciiDigit c
      let a := s.takeWhile notDigit
      let b := t.takeWhile notDigit
      let letters := (List.range (max a.length b.length)).foldl
        (fun o i => thenBy o fun _ => compareSigned (versionRank a[i]?) (versionRank b[i]?)) Ordering.eq
      thenBy letters fun _ =>
        let s := s.drop a.length
        let t := t.drop b.length
        let m := s.takeWhile isAsciiDigit
        let n := t.takeWhile isAsciiDigit
        thenBy (compareSigned (ofDigits 10 m) (ofDigits 10 n)) fun _ =>
          compareVersionSteps fuel (s.drop m.length) (t.drop n.length)

/-- A name of a version without what follows its last letters after points. -/
def versionStem (t : Text) : Text :=
  let parts := splitOn '.' t
  let isSuffix (p : Text) : Bool := (p.head?.any fun c => c.isAlpha || c == '~') && p.all fun c => c.isAlphanum || c == '~'
  let kept := (parts.drop 1).reverse.dropWhile isSuffix |>.reverse
  joinWith ['.'] (parts.take 1 ++ kept)

/-- The order of names of versions. -/
def compareVersions (s t : Text) : Ordering :=
  let fuel := s.length + t.length + 1
  if s = t then .eq
  else if s.isEmpty then .lt
  else if t.isEmpty then .gt
  else thenBy (compareVersionSteps fuel (versionStem s) (versionStem t)) fun _ => compareVersionSteps fuel s t

/-- What counts of a text in an order of texts. -/
def countedPart (m : Manner) (t : Text) : Text :=
  let t := if m.elem 'd' then t.filter fun c => isGap c || c.isAlphanum else t
  let t := if m.elem 'i' then t.filter fun c => ' ' ≤ c && c ≤ '~' else t
  if m.elem 'f' then t.map Char.toUpper else t

/-- The order that is asked for, without the last word on its direction. -/
def Manner.compareUpward (m : Manner) (s t : Text) : Ordering :=
  if m.elem 'n' then compareDecimals s t
  else if m.elem 'h' then thenBy (compareSigned (unitRank s) (unitRank t)) fun _ => compareDecimals s t
  else if m.elem 'g' then compareAmounts s t
  else if m.elem 'M' then compareSigned (monthOf s) (monthOf t)
  else if m.elem 'V' then compareVersions (countedPart m s) (countedPart m t)
  else compareTexts (countedPart m s) (countedPart m t)

/-- The order that is asked for. -/
def Manner.compare (m : Manner) (s t : Text) : Ordering :=
  let o := m.compareUpward s t
  if m.elem 'r' then o.swap else o

/-! ## Keys -/

/-- A position in a line: a field and a character of it, counted from 1; character 0 is the end of the field. -/
structure KeyEnd where
  field : Nat
  char : Nat
  skipsBlanks : Bool

/-- A part of a line by which it is compared. -/
structure SortKey where
  start : KeyEnd
  stop : Option KeyEnd
  manner : Manner

/-- A field with a character and letters, and what follows. -/
def readKeyEnd? (usual : Nat) (t : Text) : Option (KeyEnd × Manner × Text) := do
  let digits := t.takeWhile isAsciiDigit
  let field ← digitsValue? digits
  let r := t.drop digits.length
  let (char, r) ← match r with
    | '.' :: r => do
      let digits := r.takeWhile isAsciiDigit
      pure (← digitsValue? digits, r.drop digits.length)
    | r        => pure (usual, r)
  let letters := r.takeWhile fun c => c ∈ text "bdfghinMRrV"
  if field = 0 then none
  else return (⟨field, char, letters.elem 'b'⟩, letters.filter fun c => c != 'b', r.drop letters.length)

/-- A key as an option gives it. -/
def readKey? (t : Text) : Option SortKey := do
  let (start, manner, r) ← readKeyEnd? 1 t
  match r with
  | []       => return ⟨start, none, manner⟩
  | ',' :: r =>
    match ← readKeyEnd? 0 r with
    | (stop, more, []) => return ⟨start, some stop, manner ++ more⟩
    | _                => none
  | _        => none

/-- The rest of a line after fields. -/
def dropFields (separator : Option Char) : Nat → Text → Text
  | 0,     t => t
  | n + 1, t =>
    match separator with
    | some c => dropFields separator n ((t.dropWhile (· != c)).drop 1)
    | none   => dropFields separator n ((t.dropWhile isGap).dropWhile fun c => !isGap c)

/-- How many characters stand before the end of the last of some fields. -/
def endOfFields (separator : Option Char) (n : Nat) (t : Text) : Nat :=
  match separator with
  | none   => t.length - (dropFields none n t).length
  | some c =>
    let before := t.length - (dropFields separator (n - 1) t).length
    before + ((t.drop before).takeWhile (· != c)).length

/-- The part of a line that a key stands for. -/
def SortKey.part (k : SortKey) (separator : Option Char) (line : Text) : Text :=
  let skip (e : KeyEnd) (t : Text) : Text := if e.skipsBlanks then t.dropWhile isGap else t
  let start := (skip k.start (dropFields separator (k.start.field - 1) line)).drop (k.start.char - 1)
  match k.stop with
  | none   => start
  | some e =>
    let stop :=
      if e.char = 0 then endOfFields separator e.field line
      else line.length - ((skip e (dropFields separator (e.field - 1) line)).drop e.char).length
    start.take (stop - (line.length - start.length))

/-! ## Sorting -/

/-- How lines are sorted. -/
structure SortPlan where
  keys : List SortKey
  manner : Manner
  separator : Option Char
  /-- Lines that the keys do not tell apart are compared as a whole. -/
  lastResort : Bool
  unique : Bool

/-- The order of two lines by the keys. -/
def SortPlan.compareKeys (p : SortPlan) (s t : Text) : Ordering :=
  if p.keys.isEmpty then p.manner.compare (if p.manner.elem 'b' then s.dropWhile isGap else s)
    (if p.manner.elem 'b' then t.dropWhile isGap else t)
  else p.keys.foldl (fun o k => thenBy o fun _ => k.manner.compare (k.part p.separator s) (k.part p.separator t)) .eq

/-- The order of two lines. -/
def SortPlan.compare (p : SortPlan) (s t : Text) : Ordering :=
  thenBy (p.compareKeys s t) fun _ =>
    if p.lastResort && !p.unique then
      let o := compareTexts s t
      if p.manner.elem 'r' then o.swap else o
    else .eq

/-- The lines in order. -/
def SortPlan.sorted (p : SortPlan) (lines : List Text) : List Text := lines.mergeSort fun s t => p.compare s t != .gt

/-- Merge two lists, each of which keeps its order. `fuel` bounds their length. -/
def SortPlan.merge (p : SortPlan) : Nat → List Text → List Text → List Text
  | 0,        as,      _       => as
  | _ + 1,    [],      bs      => bs
  | _ + 1,    as,      []      => as
  | fuel + 1, a :: as, b :: bs =>
    if p.compare a b != .gt then a :: p.merge fuel as (b :: bs) else b :: p.merge fuel (a :: as) bs

/-- Keep the first of lines that follow one another and that the keys do not tell apart. -/
def SortPlan.distinct (p : SortPlan) (lines : List Text) : List Text :=
  if p.unique then
    (lines.foldl (fun kept l =>
      match kept with
      | k :: _ => if p.compareKeys k l == .eq then kept else l :: kept
      | []     => [l]) []).reverse
  else lines

/-- The options of `sort`. -/
def sortOptions : OptionSpec where
  flags := "bdfghiMnRrVcCmsuz"
  valued := "kotST"
  optional := ""
  long := [("ignore-leading-blanks", 'b'), ("dictionary-order", 'd'), ("ignore-case", 'f'), ("general-numeric-sort", 'g'),
    ("human-numeric-sort", 'h'), ("ignore-nonprinting", 'i'), ("month-sort", 'M'), ("numeric-sort", 'n'),
    ("random-sort", 'R'), ("reverse", 'r'), ("version-sort", 'V'), ("check", 'c'), ("key", 'k'), ("merge", 'm'),
    ("output", 'o'), ("stable", 's'), ("buffer-size", 'S'), ("field-separator", 't'), ("temporary-directory", 'T'),
    ("unique", 'u'), ("zero-terminated", 'z')]
  inOrder := false

/-- The plan that options ask for. -/
def takeSortPlan (options : Options) : Job SortPlan := do
  let letters := (options.map (·.1)).filter fun c => c ∈ text "bdfghiMnRrV"
  let separator ← match given? options 't' with
    | none             => pure none
    | some []          => quitWith 2 (text "empty tab")
    | some [c]         => pure (some c)
    | some ['\\', '0'] => pure (some '\x00')
    | some t           => quitWith 2 (text "multi-character tab " ++ quoted t)
  let mut keys := []
  for (c, v) in options do
    if c = 'k' then
      match readKey? v with
      | some k => keys := k :: keys
      | none   =>
        let digits := v.takeWhile isAsciiDigit
        if digits.isEmpty then
          quitWith 2 (text "invalid number at field start: invalid count at start of " ++ quoted v)
        else if ofDigits 10 digits = 0 then quitWith 2 (text "field number is zero: invalid field specification " ++ quoted v)
        else quitWith 2 (text "stray character in field spec: invalid field specification " ++ quoted v)
  -- A key without letters of its own takes those of all.
  let own (k : SortKey) : SortKey :=
    if k.manner.isEmpty && !k.start.skipsBlanks && !(k.stop.any fun e => e.skipsBlanks) then
      let blanks := letters.elem 'b'
      { start := { k.start with skipsBlanks := blanks }
        stop := k.stop.map fun e => { e with skipsBlanks := blanks }
        manner := letters }
    else k
  return ⟨keys.reverse.map own, letters, separator, !isGiven options 's', isGiven options 'u'⟩

/-- Print lines in order. -/
def sort : Tool := Job.tool fun args => do
  let (options, files) ← takeOptions 2 sortOptions args
  let plan ← takeSortPlan options
  let mark := if isGiven options 'z' then '\x00' else '\n'
  let mut parts := []
  for file in if files.isEmpty then [['-']] else files do
    match ← readSource file with
    | .ok t            => parts := parts ++ [(keptParts mark t).map (barePart mark)]
    | .error .isFolder => quitWith 2 (text "read failed: " ++ shown file ++ text ": Is a directory")
    | .error e         => quitWith 2 (text "cannot read: " ++ aboutFile file e)
  let lines := parts.flatten
  if isGiven options 'c' || isGiven options 'C' then do
    let bad (a b : Text) : Bool :=
      let o := plan.compare a b
      o == .gt || (plan.unique && o == .eq)
    match ((lines.zip (lines.drop 1)).zipIdx).find? fun ((a, b), _) => bad a b with
    | none             => return
    | some ((_, b), i) =>
      if isGiven options 'C' then quit 1
      else quitWith 1 (files.head?.getD ['-'] ++ ':' :: ofNat (i + 2) ++ text ": disorder: " ++ b)
  else do
    let ordered :=
      if isGiven options 'm' then parts.foldl (fun as bs => plan.merge (as.length + bs.length) as bs) []
      else plan.sorted lines
    let output := (plan.distinct ordered).flatMap fun l => l ++ [mark]
    match given? options 'o' with
    | none      => print output
    | some file =>
      if let some e ← writePath file output then quitWith 2 (text "open failed: " ++ aboutFile file e)

end JavaMend.Host
