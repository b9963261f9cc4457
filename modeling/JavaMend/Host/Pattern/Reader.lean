import JavaMend.Host.Pattern.Expression
import JavaMend.Text.Numerals

/-!
# `Host.Pattern.Reader` — how regular expressions are spelled

There are two spellings. In the basic one a backslash gives parentheses, braces, bars, plus signs and question marks
their meaning; in the extended one it takes it away. Where a repetition has nothing to repeat, a strict reader refuses
it and a lenient one passes over it.

## Contents
- **Spellings.** `ReSyntax`, `ReFault` with its messages.
- **Tokens.** `Token`, `nextToken`.
- **Reading.** `readInterval`, `readRepeats`, `readAlternatives`, `readRe`, `readReText`.
-/

namespace JavaMend.Host

open JavaMend Text

/-! ## Spellings -/

/-- How an expression is spelled. -/
structure ReSyntax where
  extended : Bool
  /-- What cannot be a repetition or a closing parenthesis stands for itself. -/
  lenient : Bool
deriving DecidableEq

/-- Why an expression is refused. -/
inductive ReFault where
  | badClass
  | endsInBackslash
  | badBack
  /-- A bracket expression ends before its first item. -/
  | noItems
  | openBracket
  | openGroup
  | openBraces
  | badBraces
  | badRange
  | nothingToRepeat
  | tooBig
  | closedGroup
deriving DecidableEq, Repr

/-- The wording of a refusal. -/
def ReFault.message : ReFault → Text
  | .badClass        => text "Invalid character class name"
  | .endsInBackslash => text "Trailing backslash"
  | .badBack         => text "Invalid back reference"
  | .noItems         => text "Invalid regular expression"
  | .openBracket     => text "Unmatched [, [^, [:, [., or [="
  | .openGroup       => text "Unmatched ( or \\("
  | .openBraces      => text "Unmatched \\\x7b"
  | .badBraces       => text "Invalid content of \\\x7b\\\x7d"
  | .badRange        => text "Invalid range end"
  | .nothingToRepeat => text "Invalid preceding regular expression"
  | .tooBig          => text "Regular expression too big"
  | .closedGroup     => text "Unmatched ) or \\)"

/-! ## Tokens -/

/-- What the characters of an expression mean. -/
inductive Token where
  | finish
  | opens
  | closes
  | bar
  | star
  | plus
  | question
  | braces
  | bracket
  | caret
  | dollar
  | zeroWidth (re : Re)
  | one (re : Re)
  | back (n : Nat)
  /-- A backslash with nothing after it. -/
  | stray

/-- What a backslash before a character means in both spellings. -/
def escapedToken? (c : Char) : Option Token :=
  match c with
  | 'w'  => some (.one (.oneOf wordSet))
  | 'W'  => some (.one (.oneOf wordSet.other))
  | 's'  => some (.one (.oneOf spaceSet))
  | 'S'  => some (.one (.oneOf spaceSet.other))
  | '<'  => some (.zeroWidth .wordStart)
  | '>'  => some (.zeroWidth .wordEnd)
  | 'b'  => some (.zeroWidth (.wordEdge true))
  | 'B'  => some (.zeroWidth (.wordEdge false))
  | '\'' => some (.zeroWidth .textEnd)
  | c    =>
    if c = Char.ofNat 0x60 then some (.zeroWidth .textStart)
    else if '1' ≤ c ∧ c ≤ '9' then some (.back (digitValue c))
    else none

/-- The operator that a character stands for. -/
def operator? (c : Char) : Option Token :=
  match c with
  | '('    => some .opens
  | ')'    => some .closes
  | '|'    => some .bar
  | '+'    => some .plus
  | '?'    => some .question
  | '\x7b' => some .braces
  | _      => none

/-- The first token, and what follows it. -/
def nextToken (s : ReSyntax) : List Mark → Token × List Mark
  | []                               => (.finish, [])
  | ('\\', true) :: []               => (.stray, [])
  | ('\\', true) :: (c, _) :: r   =>
    ((escapedToken? c).getD ((if s.extended then none else operator? c).getD (.one (.char c))), r)
  | (c, false) :: r                  => (.one (.char c), r)
  | (c, true) :: r                   =>
    match c with
    | '*' => (.star, r)
    | '.' => (.one .any, r)
    | '[' => (.bracket, r)
    | '^' => (.caret, r)
    | '$' => (.dollar, r)
    | c   => ((if s.extended then operator? c else none).getD (.one (.char c)), r)

/-! ## Reading -/

/-- The greatest number of repetitions. -/
def repetitionLimit : Nat := 0x7fff

/-- A number at the start of a text; none if there is no digit. -/
def leadingNumber? (t : Text) : Option Nat × Text :=
  let digits := t.takeWhile isAsciiDigit
  (digitsValue? digits, t.drop digits.length)

/-- The bounds between braces, after the opening one; none if they are no bounds. -/
def readInterval (s : ReSyntax) (t : List Mark) : Except ReFault (Option ((Nat × Option Nat) × List Mark)) :=
  let plain := t.map (·.1)
  let closing := if s.extended then ['\x7d'] else ['\\', '\x7d']
  let (least, r) := leadingNumber? plain
  let bounds? : Option (Nat × Option Nat × Text) :=
    match r with
    | ',' :: r =>
      let (most, r) := leadingNumber? r
      some (least.getD 0, most, r)
    | r        => least.map fun n => (n, some n, r)
  let refusal (rest : Text) : Except ReFault (Option ((Nat × Option Nat) × List Mark)) :=
    if s.extended && s.lenient then .ok none
    -- Only what is cut off while a number is read counts as not closed.
    else if rest.all (fun c => c.isDigit) || !(contains closing rest) then .error .openBraces
    else .error .badBraces
  match bounds? with
  | none                   => refusal r
  | some (least, most, r) =>
    match dropPrefix? closing r with
    | none      => refusal r
    | some rest =>
      if most.any (· < least) then .error .badBraces
      else if repetitionLimit < most.getD least then .error .tooBig
      else .ok (some ((least, most), t.drop (t.length - rest.length)))

/-- How far an expression is read: the number of the next group, the groups that are closed, and how many are open. -/
structure ReContext where
  next : Nat
  closed : List Nat
  depth : Nat

/-- A repetition may follow another one; a strict reader of the basic spelling refuses a star and braces there. -/
def mayRepeat (s : ReSyntax) (t : List Mark) : Except ReFault Unit :=
  if s.extended || s.lenient then .ok ()
  else match (nextToken s t).1 with
    | .star   => .error .nothingToRepeat
    | .braces => .error .nothingToRepeat
    | _       => .ok ()

/-- Repeat an expression as the characters after it say. `fuel` bounds the repetitions. -/
def readRepeats (s : ReSyntax) : Nat → Re → List Mark → Except ReFault (Re × List Mark)
  | 0,        a, t => .ok (a, t)
  | fuel + 1, a, t => do
    let again (a : Re) (r : List Mark) : Except ReFault (Re × List Mark) := do
      mayRepeat s r
      readRepeats s fuel a r
    match nextToken s t with
    | (.star, r)     => again (.rep a 0 none) r
    | (.plus, r)     => again (.rep a 1 none) r
    | (.question, r) => again (.rep a 0 (some 1)) r
    | (.braces, r)   =>
      match ← readInterval s r with
      | some ((least, most), rest) => again (.rep a least most) rest
      | none                       => return (a, t)
    | _              => return (a, t)

/-- The faults of bracket expressions. -/
def BracketFault.inRe : BracketFault → ReFault
  | .isOpen   => .openBracket
  | .badClass => .badClass
  | .badRange => .badRange

/-- Something ends a branch here. -/
def endsBranch (s : ReSyntax) (t : List Mark) : Bool :=
  match (nextToken s t).1 with
  | .finish => true
  | .bar    => true
  | .closes => true
  | _       => false

mutual

/-- Read alternatives up to the end of their group. `fuel` bounds the steps. -/
def readAlternatives (s : ReSyntax) : Nat → ReContext → List Mark → Except ReFault (Re × ReContext × List Mark)
  | 0,        _, _ => .error .tooBig
  | fuel + 1, c, t => do
    let (a, c, rest) ← readBranch s fuel c true t
    match nextToken s rest with
    | (.bar, more) => do
      let (b, c, rest) ← readAlternatives s fuel c more
      return (.alt a b, c, rest)
    | _            => return (a, c, rest)

/-- Read a branch; `first` tells that nothing precedes in it but conditions on the position. -/
def readBranch (s : ReSyntax) : Nat → ReContext → Bool → List Mark → Except ReFault (Re × ReContext × List Mark)
  | 0,        _, _,     _ => .error .tooBig
  | fuel + 1, c, first, t => do
    let ahead (a : Re) (c : ReContext) (rest : List Mark) : Except ReFault (Re × ReContext × List Mark) := do
      let (a, rest) ← readRepeats s (rest.length + 1) a rest
      let (b, c, rest) ← readBranch s fuel c false rest
      return (.seq a b, c, rest)
    -- A condition on the position cannot be repeated, but a lenient reader takes it as optional then.
    let condition (a : Re) (rest : List Mark) : Except ReFault (Re × ReContext × List Mark) := do
      if s.extended && s.lenient then ahead a c rest
      else
        let (b, c, rest) ← readBranch s fuel c true rest
        return (.seq a b, c, rest)
    let literal (r : List Mark) : Except ReFault (Re × ReContext × List Mark) :=
      ahead (.char ((t.drop (t.length - r.length - 1)).head?.map (·.1) |>.getD '*')) c r
    let unrepeatable (r : List Mark) : Except ReFault (Re × ReContext × List Mark) :=
      if !s.extended then literal r
      else if s.lenient then readBranch s fuel c first r
      else .error .nothingToRepeat
    match nextToken s t with
    | (.finish, _)       => return (.empty, c, t)
    | (.bar, _)          => return (.empty, c, t)
    | (.closes, r)       =>
      if c.depth = 0 then
        if s.extended && s.lenient then literal r else .error .closedGroup
      else return (.empty, c, t)
    | (.stray, _)        => .error .endsInBackslash
    | (.opens, r)        => do
      let n := c.next
      let (a, inner, rest) ← readAlternatives s fuel { c with next := n + 1, depth := c.depth + 1 } r
      match nextToken s rest with
      | (.closes, rest) => ahead (.group n a) { inner with depth := c.depth, closed := n :: inner.closed } rest
      | _               => .error .openGroup
    | (.bracket, r)      => do
      if r.isEmpty || r.map (·.1) == ['^'] then throw .noItems
      let (set, rest) ← (readBracket ['^'] r).mapError BracketFault.inRe
      ahead (.oneOf set) c rest
    | (.caret, r)        =>
      if s.extended || first then condition .lineStart r else literal r
    | (.dollar, r)       =>
      if s.extended || endsBranch s r then condition .lineEnd r else literal r
    | (.zeroWidth a, r)  => condition a r
    | (.one a, r)        => ahead a c r
    | (.back n, r)       => if n ∈ c.closed then ahead (.back n) c r else .error .badBack
    | (.star, r)         => if first then unrepeatable r else literal r
    | (.plus, r)         => unrepeatable r
    | (.question, r)     => unrepeatable r
    | (.braces, r)       =>
      if s.lenient then do
        match ← readInterval s r with
        | some (_, rest) => unrepeatable rest
        | none           => literal r
      else .error .nothingToRepeat

end

/-- Read an expression; its groups are numbered from 1. Also how many groups it has. -/
def readRe (s : ReSyntax) (t : List Mark) : Except ReFault (Re × Nat) := do
  let (re, c, _) ← readAlternatives s (2 * t.length + 3) ⟨1, [], 0⟩ t
  return (re, c.next - 1)

/-- Read an expression from a text. -/
def readReText (s : ReSyntax) (t : Text) : Except ReFault (Re × Nat) := readRe s (marks t)

end JavaMend.Host
