import JavaMend.Host.Printing
import JavaMend.Host.Shell.State

/-!
# `Host.Shell.Arithmetic` — the value of arithmetic expressions

Expressions are worked out with numbers of 64 bits, from signs and names that are read first. What is not needed for the
value is read without being worked out.

## Contents
- **Signs.** `Sign`, `readSigns`.
- **Numbers.** `wholeNumber?`, `numberOf`.
- **Values.** `binary?`, `rank`, `primary` and what is built of it; `arithmetic`.
-/

namespace JavaMend.Host.Shell

open JavaMend Text

/-! ## Signs -/

/-- What an expression is read as. -/
inductive Sign where
  | number (n : Int64)
  | name (t : Text)
  | sign (t : String)
  /-- Something that has no place in an expression. -/
  | bad
deriving DecidableEq

/-- Signs by their spelling, the longer ones first. -/
def signs : List String :=
  ["<<=", ">>=", "==", "!=", "<=", ">=", "<<", ">>", "&&", "||", "+=", "-=", "*=", "/=", "%=", "&=", "|=", "^=",
   "=", "<", ">", "+", "-", "*", "/", "%", "&", "|", "^", "!", "~", "?", ":", "(", ")"]

/-- A number within the bounds of 64 bits. -/
def bounded (n : Int) : Int64 := .ofInt (max (-Nat.pow 2 63) (min n (Nat.pow 2 63 - 1)))

/-- The signs of an expression. `fuel` bounds their number. -/
def readSigns : Nat → Text → List Sign
  | 0,        _ => []
  | fuel + 1, t =>
    match t.dropWhile fun c => c ∈ text " \t\n" with
    | []     => []
    | c :: r =>
      if c.isDigit then
        match leadingInt? (c :: r) with
        | some (n, rest) => .number (bounded n) :: readSigns fuel rest
        | none           => [.bad]
      else if isNameStart c then
        let name := (c :: r).takeWhile isNameChar
        .name name :: readSigns fuel ((c :: r).drop name.length)
      else
        match signs.find? fun s => startsWith s.toList (c :: r) with
        | some s => .sign s :: readSigns fuel ((c :: r).drop s.length)
        | none   => [.bad]

/-! ## Numbers -/

/-- The number that a text spells; `lenient` allows a text without digits. -/
def wholeNumber? (lenient : Bool) (t : Text) : Option Int64 :=
  match leadingInt? t with
  | some (n, rest) => if rest.all isSpace then some (bounded n) else none
  | none           => if lenient && t.all isSpace then some 0 else none

/-- The decimal number that an argument spells; zeros at its start mean nothing. -/
def decimalNumber? (t : Text) : Option Int :=
  let r := t.dropWhile isSpace
  let (negative, r) := match r with
    | '-' :: r => (true, r)
    | '+' :: r => (false, r)
    | r        => (false, r)
  let digits := r.takeWhile isAsciiDigit
  if digits.isEmpty || !(r.drop digits.length).all isSpace then none
  else
    let n := ofDigits 10 digits
    some (if negative then -(n : Int) else n)

/-- The decimal number that an argument spells, or a complaint. -/
def decimalNumber (t : Text) : Sh Int := do
  match decimalNumber? t with
  | some n => if n < -Nat.pow 2 63 ∨ (Nat.pow 2 63 : Int) ≤ n then fail (text "Illegal number: " ++ t) else return n
  | none   => fail (text "Illegal number: " ++ t)

/-- The count that an argument spells, or a complaint. -/
def countArgument (t : Text) : Sh Nat := do
  match decimalNumber? t with
  | some n => if n < 0 ∨ 2147483647 < n then fail (text "Illegal number: " ++ t) else return n.toNat
  | none   => fail (text "Illegal number: " ++ t)

/-- The number that a variable holds. -/
def numberOf (name : Text) : Sh Int64 := do
  let value := (← value? name).getD []
  match wholeNumber? true value with
  | some n => return n
  | none   => fail (text "Illegal number: " ++ value)

/-! ## Values -/

/-- The value that says whether something holds. -/
def truth (b : Bool) : Int64 := if b then 1 else 0

/-- The value of a sign between two numbers; none if the second one must not be zero. -/
def binary? (sign : String) (a b : Int64) : Option Int64 :=
  match sign with
  | "*"  => some (a * b)
  | "/"  => if b == 0 then none else some (a / b)
  | "%"  => if b == 0 then none else some (a % b)
  | "+"  => some (a + b)
  | "-"  => some (a - b)
  | "<<" => some (a <<< b)
  | ">>" => some (a >>> b)
  | "<"  => some (truth (decide (a.toInt < b.toInt)))
  | "<=" => some (truth (decide (a.toInt ≤ b.toInt)))
  | ">"  => some (truth (decide (b.toInt < a.toInt)))
  | ">=" => some (truth (decide (b.toInt ≤ a.toInt)))
  | "==" => some (truth (a == b))
  | "!=" => some (truth (a != b))
  | "&"  => some (a &&& b)
  | "^"  => some (a ^^^ b)
  | "|"  => some (a ||| b)
  | _    => none

/-- How tightly a sign binds; the smaller, the tighter. -/
def rank? (s : Sign) : Option (String × Nat) :=
  match s with
  | .sign t =>
    (if t ∈ ["*", "/", "%"] then some 0
    else if t ∈ ["+", "-"] then some 1
    else if t ∈ ["<<", ">>"] then some 2
    else if t ∈ ["<", "<=", ">", ">="] then some 3
    else if t ∈ ["==", "!="] then some 4
    else if t = "&" then some 5
    else if t = "^" then some 6
    else if t = "|" then some 7
    else none).map fun n => (t, n)
  | _       => none

/-- The number of ranks. -/
def ranks : Nat := 8

/-- An expression that is being worked out: what is left of it. -/
abbrev Sum := ReaderT Text (StateT (List Sign) Sh)

/-- Complain about the expression. -/
def Sum.fault {α : Type} (complaint : String) : Sum α := do
  let whole ← read
  (fail (text "arithmetic expression: " ++ complaint.toList ++ text ": \"" ++ whole ++ ['"']) : Sh α)

/-- Take a sign, if it is the next one. -/
def Sum.takes (s : String) : Sum Bool := do
  if (← get).head? = some (.sign s) then
    modify List.tail
    return true
  return false

/-- Work out a sign between two numbers. -/
def Sum.binary (sign : String) (a b : Int64) : Sum Int64 := do
  match binary? sign a b with
  | some n => return n
  | none   => Sum.fault "division by zero"

/-- The sign of an assignment; the sign that is worked out before it is empty if there is none. -/
def assigning? (s : Sign) : Option String :=
  match s with
  | .sign "="   => some ""
  | .sign "+="  => some "+"
  | .sign "-="  => some "-"
  | .sign "*="  => some "*"
  | .sign "/="  => some "/"
  | .sign "%="  => some "%"
  | .sign "&="  => some "&"
  | .sign "|="  => some "|"
  | .sign "^="  => some "^"
  | .sign "<<=" => some "<<"
  | .sign ">>=" => some ">>"
  | _           => none

mutual

/-- The value of a number, a name, or an expression in parentheses, with the signs before it. Nothing is worked out
    unless `live` holds. -/
def primary : Nat → (live : Bool) → Sum Int64
  | 0,        _    => Sum.fault "expecting primary"
  | fuel + 1, live => do
    match ← get with
    | .number n :: r => do
      set r
      return n
    | .name t :: r   => do
      set r
      if live then (numberOf t : Sh Int64) else return 0
    | .sign "(" :: r => do
      set r
      let n ← expression fuel live
      if !(← Sum.takes ")") then Sum.fault "expecting ')'"
      return n
    | .sign "+" :: r => do
      set r
      primary fuel live
    | .sign "-" :: r => do
      set r
      return -(← primary fuel live)
    | .sign "!" :: r => do
      set r
      return truth ((← primary fuel live) == 0)
    | .sign "~" :: r => do
      set r
      return ~~~(← primary fuel live)
    | _              => Sum.fault "expecting primary"

/-- Go on after a first number as long as the signs bind more tightly than `above`. -/
def binaries : Nat → (live : Bool) → (above : Nat) → Int64 → Sum Int64
  | 0,        _,    _,     a => return a
  | fuel + 1, live, above, a => do
    match (← get).head?.bind rank? with
    | none           => return a
    | some (sign, n) =>
      if above ≤ n then return a
      modify List.tail
      let b ← primary fuel live
      let b ← binaries fuel live n b
      let value ← if live then Sum.binary sign a b else pure b
      binaries fuel live above value

/-- A row of conditions that all hold. -/
def conjunction : Nat → (live : Bool) → Sum Int64
  | 0,        _    => return 0
  | fuel + 1, live => do
    let a ← binaries fuel live ranks (← primary fuel live)
    if ← Sum.takes "&&" then
      let b ← conjunction fuel (live && a != 0)
      return truth (a != 0 && b != 0)
    return a

/-- A row of conditions one of which holds. -/
def disjunction : Nat → (live : Bool) → Sum Int64
  | 0,        _    => return 0
  | fuel + 1, live => do
    let a ← conjunction fuel live
    if ← Sum.takes "||" then
      let b ← disjunction fuel (live && a == 0)
      return truth (a != 0 || b != 0)
    return a

/-- A choice between two values. -/
def choice : Nat → (live : Bool) → Sum Int64
  | 0,        _    => return 0
  | fuel + 1, live => do
    let a ← disjunction fuel live
    if ← Sum.takes "?" then
      let b ← expression fuel (live && a != 0)
      if !(← Sum.takes ":") then Sum.fault "expecting ':'"
      let c ← choice fuel (live && a == 0)
      return if a != 0 then b else c
    return a

/-- The value of an expression, which may be assigned. -/
def expression : Nat → (live : Bool) → Sum Int64
  | 0,        _    => return 0
  | fuel + 1, live => do
    match ← get with
    | .name t :: s :: r =>
      match assigning? s with
      | none      => choice fuel live
      | some sign => do
        set r
        let n ← expression fuel live
        if !live then return n
        let value ← if sign.isEmpty then pure n else Sum.binary sign (← (numberOf t : Sh Int64)) n
        (assign t (ofInt value.toInt) : Sh Unit)
        return value
    | _                 => choice fuel live

end

/-- The value of an expression. -/
def arithmetic (t : Text) : Sh Int64 := do
  let found := readSigns (t.length + 1) t
  let fuel := 16 * found.length + 16
  let work : Sum Int64 := do
    let n ← expression fuel true
    if !(← get).isEmpty then Sum.fault "expecting EOF"
    return n
  return (← (work t).run found).1

end JavaMend.Host.Shell
