import JavaMend.Host.Pattern.CharSet

/-!
# `Host.Pattern.Expression` — regular expressions

An expression is looked for in a text. Of the matches that start first the longest counts, and inside of it what comes
first takes as much as it can.

## Contents
- **Expressions.** `Re`, `Re.looksBack`, `literalRe`.
- **Texts to search.** `Haystack`.
- **Ends.** `Re.ends`: where the matches from one position end.
- **Captures.** `Captures`, `Re.captures?`, `Re.runs` for expressions that look back at what was captured.
- **Searching.** `Hit`, `Re.matchAt?`, `Re.find?`.
-/

namespace JavaMend.Host

open JavaMend Text

/-! ## Expressions -/

/-- A regular expression. -/
inductive Re where
  | empty
  | char (c : Char)
  | any
  | oneOf (s : CharSet)
  | lineStart
  | lineEnd
  | textStart
  | textEnd
  | wordStart
  | wordEnd
  /-- The start or the end of a word, or neither. -/
  | wordEdge (isEdge : Bool)
  | seq (a b : Re)
  | alt (a b : Re)
  /-- At least so many times, and at most so many. -/
  | rep (a : Re) (least : Nat) (most : Option Nat)
  /-- What it matches is kept under a number. -/
  | group (n : Nat) (a : Re)
  /-- What is kept under a number. -/
  | back (n : Nat)
deriving Repr

/-- The expression that matches a text as it is. -/
def literalRe (t : Text) : Re := t.foldr (fun c re => .seq (.char c) re) .empty

/-! ## Texts to search -/

/-- A text to be searched, and how. -/
structure Haystack where
  chars : Array Char
  /-- Letters of both cases are the same. -/
  folds : Bool
  /-- Lines start and end at each newline, and what matches any character or all others does not match it. -/
  byLine : Bool

namespace Haystack

/-- A text to be searched as it is. -/
def ofText (t : Text) : Haystack := ⟨t.toArray, false, false⟩

/-- The part between two positions. -/
def part (h : Haystack) (i j : Nat) : Text := (h.chars.extract i j).toList

/-- Two characters are taken for the same. -/
def same (h : Haystack) (a b : Char) : Bool := a == b || (h.folds && a.toLower == b.toLower)

/-- The character is in a set. -/
def has (h : Haystack) (s : CharSet) (c : Char) : Bool :=
  (if h.folds then s.hasFolded c else s.has c) && !(h.byLine && s.negated && c == '\n')

/-- A word goes on at a position. -/
def inWord (h : Haystack) (i : Nat) : Bool := (h.chars[i]?).any wordSet.has

/-- A word goes on before a position. -/
def afterWord (h : Haystack) (i : Nat) : Bool := i != 0 && h.inWord (i - 1)

/-- A line starts at a position. -/
def startsLine (h : Haystack) (i : Nat) : Bool := i == 0 || (h.byLine && h.chars[i - 1]? == some '\n')

/-- A line ends at a position. -/
def endsLine (h : Haystack) (i : Nat) : Bool := i == h.chars.size || (h.byLine && h.chars[i]? == some '\n')

/-- The condition that an expression without length puts on a position. -/
def holds (h : Haystack) (i : Nat) : Re → Bool
  | .lineStart   => h.startsLine i
  | .lineEnd     => h.endsLine i
  | .textStart   => i == 0
  | .textEnd     => i == h.chars.size
  | .wordStart   => !h.afterWord i && h.inWord i
  | .wordEnd     => h.afterWord i && !h.inWord i
  | .wordEdge is => (h.afterWord i != h.inWord i) == is
  | _            => true

/-- The expression is one character that fits. -/
def fitsOne (h : Haystack) (i : Nat) : Re → Bool
  | .char c  => (h.chars[i]?).any fun a => h.same a c
  | .any     => (h.chars[i]?).any fun a => !(h.byLine && a == '\n')
  | .oneOf s => (h.chars[i]?).any (h.has s)
  | _        => false

end Haystack

namespace Re

/-- The expression always matches one character. -/
def isOne : Re → Bool
  | char _  => true
  | any     => true
  | oneOf _ => true
  | _       => false

/-- The expression needs what was captured. -/
def looksBack : Re → Bool
  | seq a b   => a.looksBack || b.looksBack
  | alt a b   => a.looksBack || b.looksBack
  | rep a _ _ => a.looksBack
  | group _ a => a.looksBack
  | back _    => true
  | _         => false

/-! ## Ends -/

/-- Positions from the greatest to the least, each of them once. -/
abbrev Ends := List Nat

/-- All positions of both lists. -/
def union : Ends → Ends → Ends
  | [],      ys      => ys
  | x :: xs, []      => x :: xs
  | x :: xs, y :: ys =>
    if y < x then x :: union xs (y :: ys)
    else if x < y then y :: union (x :: xs) ys
    else x :: union xs ys
termination_by xs ys => xs.length + ys.length

/-- The ends of a step from each of some positions. -/
def stepAll (step : Nat → Ends) (is : Ends) : Ends := is.foldr (fun i found => union (step i) found) []

/-- The position is among those. -/
def holdsEnd (i : Nat) : Ends → Bool
  | []      => false
  | x :: xs => if i < x then holdsEnd i xs else x == i

/-- Follow a step again and again from the positions `new`; `seen` were found before. `fuel` bounds the rounds. -/
def closure (step : Nat → Ends) : Nat → Ends → Ends → Ends
  | 0,        seen, _   => seen
  | fuel + 1, seen, new =>
    let more := (stepAll step new).filter fun i => !holdsEnd i seen
    if more.isEmpty then seen else closure step fuel (union seen more) more

/-- The ends after a number of rounds. -/
def times (step : Nat → Ends) : Nat → Ends → Ends
  | 0,     is => is
  | n + 1, is => if is.isEmpty then [] else times step n (stepAll step is)

/-- The ends after up to a number of rounds. -/
def upTo (step : Nat → Ends) : Nat → Ends → Ends
  | 0,     is => is
  | n + 1, is => if is.isEmpty then [] else union is (upTo step n (stepAll step is))

/-- How many characters from a position on fit one after the other. -/
def runLength (fits : Nat → Bool) : Nat → Nat → Nat
  | 0,        _ => 0
  | fuel + 1, i => if fits i then runLength fits fuel (i + 1) + 1 else 0

/-- Where the matches that start at a position end, if nothing looks back. -/
def ends (h : Haystack) : Re → Nat → Ends
  | empty,           i => [i]
  | seq a b,         i => stepAll (ends h b) (ends h a i)
  | alt a b,         i => union (ends h a i) (ends h b i)
  | group _ a,       i => ends h a i
  | rep a least most, i =>
    let room := h.chars.size - i
    if a.isOne then
      let bound := match most with
        | some n => min n room
        | none   => room
      let n := runLength (fun i => h.fitsOne i a) bound i
      if n < least then [] else (List.range' (i + least) (n - least + 1)).reverse
    else
      let start := times (ends h a) least [i]
      match most with
      | some n => upTo (ends h a) (n - least) start
      | none   => closure (ends h a) (h.chars.size + 1) start start
  | back _,          _ => []
  | re,              i => if re.isOne then (if h.fitsOne i re then [i + 1] else []) else if h.holds i re then [i] else []

/-! ## Captures -/

/-- What groups have matched: their numbers, starts and ends; the last one of a number counts. -/
abbrev Captures := List (Nat × Nat × Nat)

/-- The captures of a repetition that matches from `i` to `j`, those of later rounds first. `fuel` bounds the rounds. -/
def repeated? (step : Nat → Ends) (inner : Nat → Nat → Option Captures) :
    Nat → Nat → Option Nat → Nat → Nat → Option Captures
  | 0,        _,     _,    i, j => if i = j then some [] else none
  | fuel + 1, least, most, i, j =>
    let round (k : Nat) : Option Captures := do
      let first ← inner i k
      return (← repeated? step inner fuel (least - 1) (most.map (· - 1)) k j) ++ first
    if most = some 0 then (if i = j then some [] else none)
    else if i = j then (if least = 0 then some [] else round i)
    else ((step i).filter fun k => (i < k || least != 0) && k ≤ j).findSome? round

/-- The captures of a match from `i` to `j`, if nothing looks back. -/
def captures? (h : Haystack) : Re → Nat → Nat → Option Captures
  | seq a b,          i, j =>
    ((ends h a i).filter (· ≤ j)).findSome? fun k =>
      if holdsEnd j (ends h b k) then do
        let first ← captures? h a i k
        return (← captures? h b k j) ++ first
      else none
  | alt a b,          i, j => (captures? h a i j).or (captures? h b i j)
  | rep a least most, i, j =>
    if a.isOne then some []
    -- An empty repetition still keeps that its group has matched nothing.
    else if i = j ∧ least = 0 then some ((captures? h a i j).getD [])
    else repeated? (ends h a) (captures? h a) (j - i + least + 1) least most i j
  | group n a,        i, j => (captures? h a i j).map fun cs => (n, i, j) :: cs
  | re,               i, j => if holdsEnd j (ends h re i) then some [] else none

/-- The ends and captures of a repetition, greatest number of rounds first. `fuel` bounds the rounds. -/
def repeatedRuns (step : Nat → Captures → List (Nat × Captures)) :
    Nat → Nat → Option Nat → Nat → Captures → List (Nat × Captures)
  | 0,        _,     _,    i, cs => [(i, cs)]
  | fuel + 1, least, most, i, cs =>
    let more :=
      if most = some 0 then []
      else (step i cs).flatMap fun (k, cs) =>
        if k = i ∧ least = 0 then [] else repeatedRuns step fuel (least - 1) (most.map (· - 1)) k cs
    if least = 0 then more ++ [(i, cs)] else more

/-- The ends and captures of all matches from a position, those first in which what comes first takes more. -/
def runs (h : Haystack) : Re → Nat → Captures → List (Nat × Captures)
  | seq a b,          i, cs => (runs h a i cs).flatMap fun (k, cs) => runs h b k cs
  | alt a b,          i, cs => runs h a i cs ++ runs h b i cs
  | rep a least most, i, cs => repeatedRuns (runs h a) (h.chars.size - i + least + 1) least most i cs
  | group n a,        i, cs => (runs h a i cs).map fun (k, cs) => (k, (n, i, k) :: cs)
  | back n,           i, cs =>
    match cs.lookup n with
    | none        => []
    | some (a, b) =>
      let k := i + (b - a)
      let same := (List.range (b - a)).all fun d =>
        match h.chars[a + d]?, h.chars[i + d]? with
        | some x, some y => h.same x y
        | _,      _      => false
      if same then [(k, cs)] else []
  | re,               i, cs => (ends h re i).map fun k => (k, cs)

/-! ## Searching -/

/-- A match: where it starts and ends, and what its groups have matched. -/
structure Hit where
  start : Nat
  stop : Nat
  captures : Captures

/-- What a group has matched; group 0 is the whole match. -/
def Hit.group? (m : Hit) (n : Nat) : Option (Nat × Nat) :=
  if n = 0 then some (m.start, m.stop) else m.captures.lookup n

/-- The longest match that starts at a position and ends where it may. -/
def matchAt? (re : Re) (h : Haystack) (i : Nat) (mayEnd : Nat → Bool) : Option Hit :=
  if re.looksBack then
    let found := (runs h re i []).filter fun r => mayEnd r.1
    let longest := found.foldl (fun n r => max n r.1) i
    (found.find? fun r => r.1 = longest).map fun (k, cs) => ⟨i, k, cs⟩
  else ((ends h re i).find? mayEnd).map fun k => ⟨i, k, (captures? h re i k).getD []⟩

/-- The first match that starts at one of so many positions. -/
def findAmong (re : Re) (h : Haystack) : Nat → Nat → Option Hit
  | 0,     _ => none
  | n + 1, i => match re.matchAt? h i fun _ => true with
    | some hit => some hit
    | none     => findAmong re h n (i + 1)

/-- The first match from a position on. -/
def find? (re : Re) (h : Haystack) (i : Nat) : Option Hit := findAmong re h (h.chars.size + 1 - i) i

/-- There is a match. -/
def isIn (re : Re) (h : Haystack) : Bool := (re.find? h 0).isSome

/-- The match is the whole text. -/
def isWhole (re : Re) (h : Haystack) : Bool := (re.matchAt? h 0 fun k => k == h.chars.size).isSome

end Re
end JavaMend.Host
