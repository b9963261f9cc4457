import JavaMend.Host.Options
import JavaMend.Host.Pattern.Reader
import JavaMend.Host.Shell.Conditions

/-!
# `Host.Calculation` — expressions and conditions as arguments

The arguments of a tool spell an expression, which is worked out and printed, or a condition, which tells how the tool
ends.

## Contents
- **Figures.** `Figure`, `wholeFigure?`, `Figure.isNothing`.
- **Expressions.** `ExprFault`, `Calculating`, `matchFigure`; `calculate`, `expr`.
- **Conditions.** `Condition`, `unaryHolds`, `binaryHolds`, `conditionHolds`; `testTool`, `bracketTool`.
-/

namespace JavaMend.Host

open JavaMend Text

/-! ## Figures -/

/-- What an expression is worth. -/
inductive Figure where
  | whole (n : Int)
  | chars (t : Text)

/-- The whole number that a text is. -/
def wholeFigure? (t : Text) : Option Int :=
  match t with
  | '-' :: r => (digitsValue? r).map fun n => -(n : Int)
  | r        => (digitsValue? r).map fun n => (n : Int)

/-- The whole number that a figure is. -/
def Figure.whole? : Figure → Option Int
  | .whole n => some n
  | .chars t => wholeFigure? t

/-- The text of a figure. -/
def Figure.toText : Figure → Text
  | .whole n => if n < 0 then '-' :: ofNat n.natAbs else ofNat n.natAbs
  | .chars t => t

/-- The figure is empty or zero. -/
def Figure.isNothing (f : Figure) : Bool :=
  match f with
  | .whole n => n == 0
  | .chars t => t.isEmpty || wholeFigure? t == some 0

/-! ## Expressions -/

/-- Why an expression cannot be worked out. -/
inductive ExprFault where
  | missing (behind : Text)
  | unexpected (t : Text)
  | closing
  | noClosing (behind : Text)
  | notClosing (t : Text)
  | notWhole
  | divisionByZero
  | pattern (f : ReFault)

/-- The wording of a fault. -/
def ExprFault.message : ExprFault → Text
  | .missing t      => text "syntax error: missing argument after " ++ quoted t
  | .unexpected t   => text "syntax error: unexpected argument " ++ quoted t
  | .closing        => text "syntax error: unexpected ')'"
  | .noClosing t    => text "syntax error: expecting ')' after " ++ quoted t
  | .notClosing t   => text "syntax error: expecting ')' instead of " ++ quoted t
  | .notWhole       => text "non-integer argument"
  | .divisionByZero => text "division by zero"
  | .pattern f      => f.message

/-- Arguments that are worked off: those that are left, and the last one that was not. -/
abbrev Calculating := StateT (List Text × Text) (Except ExprFault)

/-- The next argument. -/
def nextWord? : Calculating (Option Text) := return (← get).1.head?

/-- Take the next argument. -/
def takeWord : Calculating Text := do
  match ← get with
  | (t :: ts, _) => do
    set (ts, t)
    return t
  | ([], last)   => throw (.missing last)

/-- How a text matches a regular expression from its start on: what the group holds, or else how long the match is. -/
def matchFigure (t source : Text) : Except ExprFault Figure :=
  match readReText ⟨false, true⟩ source with
  | .error f          => .error (.pattern f)
  | .ok (re, groups)  =>
    let h := Haystack.ofText t
    match re.matchAt? h 0 fun _ => true with
    | none     => .ok (if groups = 0 then .whole 0 else .chars [])
    | some hit =>
      if groups = 0 then .ok (.whole (hit.stop : Nat))
      else .ok (.chars (match hit.group? 1 with
        | some (a, b) => h.part a b
        | none        => []))

/-- Do something with two whole numbers. What is not needed is not checked. -/
def onWholes (live : Bool) (f : Int → Int → Except ExprFault Int) (a b : Figure) : Calculating Figure := do
  if !live then return .whole 0
  match a.whole?, b.whole? with
  | some m, some n => return .whole (← f m n)
  | _,      _      => throw .notWhole

/-- Compare figures: as numbers if both are, and else as texts. -/
def compareFigures (op : String) (a b : Figure) : Bool :=
  let order : Ordering := match a.whole?, b.whole? with
    | some m, some n => if m < n then .lt else if m = n then .eq else .gt
    | _,      _      =>
      let s := a.toText
      let t := b.toText
      if s = t then .eq else if before s t then .lt else .gt
  match op with
  | "<"  => order == .lt
  | "<=" => order != .gt
  | ">"  => order == .gt
  | ">=" => order != .lt
  | "!=" => order != .eq
  | _    => order == .eq

/-- Work off a row of operands with operators between them, from left to right. `fuel` bounds the operators. -/
def calculateRow (operand : Bool → Calculating Figure) (operators : List String)
    (combine : Bool → String → Figure → (Bool → Calculating Figure) → Calculating Figure) (live : Bool) :
    Nat → Figure → Calculating Figure
  | 0,        a => return a
  | fuel + 1, a => do
    match (← nextWord?).map String.ofList with
    | none    => return a
    | some op =>
      if op ∈ operators then
        discard takeWord
        calculateRow operand operators combine live fuel (← combine live op a operand)
      else return a

/-- The most operators. -/
def operatorLimit : Nat := 100000

/-- Operands of one level. -/
def calculateLevel (operand : Bool → Calculating Figure) (operators : List String)
    (combine : Bool → String → Figure → (Bool → Calculating Figure) → Calculating Figure) (live : Bool) :
    Calculating Figure := do
  calculateRow operand operators combine live operatorLimit (← operand live)

/-- An operation on the values of both operands. -/
def onBoth (f : Bool → String → Figure → Figure → Calculating Figure) (live : Bool) (op : String) (a : Figure)
    (operand : Bool → Calculating Figure) : Calculating Figure := do
  f live op a (← operand live)

/-- Work out an operand; `self` works out what stands between parentheses. `fuel` bounds the words before it. -/
def calculateOperand (self : Bool → Calculating Figure) : Nat → Bool → Calculating Figure
  | 0,        _    => do throw (.missing (← get).2)
  | fuel + 1, live => do
    let operand := calculateOperand self fuel live
    match String.ofList (← takeWord) with
    | "+"      => return .chars (← takeWord)
    | "length" => return .whole ((← operand).toText.length : Nat)
    | "match"  => do
      let t ← operand
      let p ← operand
      if live then matchFigure t.toText p.toText else return .whole 0
    | "index"  => do
      let t := (← operand).toText
      let chars := (← operand).toText
      return .whole (match t.findIdx? fun c => chars.elem c with
        | some i => ((i + 1 : Nat) : Int)
        | none   => 0)
    | "substr" => do
      let t := (← operand).toText
      let start := (← operand).whole?
      let size := (← operand).whole?
      return .chars (match start, size with
        | some a, some n => if a ≤ 0 ∨ n ≤ 0 then [] else (t.drop (a.toNat - 1)).take n.toNat
        | _,      _      => [])
    | "("      => do
      let v ← self live
      match ← nextWord? with
      | some [')'] => do
        discard takeWord
        return v
      | some t     => throw (.notClosing t)
      | none       => throw (.noClosing (← get).2)
    | ")"      => throw .closing
    | word     => return .chars word.toList

/-- Work out an expression, with `self` for what stands between parentheses. -/
def calculateWith (self : Bool → Calculating Figure) : Bool → Calculating Figure :=
  let operand := calculateOperand self operatorLimit
  let matches_ := calculateLevel operand [":"] (onBoth fun live _ a b =>
    if live then do return ← matchFigure a.toText b.toText else return .whole 0)
  let products := calculateLevel matches_ ["*", "/", "%"] (onBoth fun live op a b =>
    onWholes live (fun m n =>
      match op with
      | "*" => .ok (m * n)
      | "/" => if n = 0 then .error .divisionByZero else .ok (m.tdiv n)
      | _   => if n = 0 then .error .divisionByZero else .ok (m.tmod n)) a b)
  let sums := calculateLevel products ["+", "-"] (onBoth fun live op a b =>
    onWholes live (fun m n => .ok (if op = "+" then m + n else m - n)) a b)
  let comparisons := calculateLevel sums ["<", "<=", "=", "==", "!=", ">=", ">"] (onBoth fun _ op a b =>
    return .whole (if compareFigures op a b then 1 else 0))
  let conjunctions := calculateLevel comparisons ["&"] fun live _ a operand => do
    let b ← operand (live && !a.isNothing)
    return if a.isNothing || b.isNothing then .whole 0 else a
  calculateLevel conjunctions ["|"] fun live _ a operand => do
    let b ← operand (live && a.isNothing)
    return if !a.isNothing then a else if b.isNothing then .whole 0 else b

/-- Work out an expression. `fuel` bounds the parentheses in one another. -/
def calculate : Nat → Bool → Calculating Figure
  | 0,        _    => do throw (.missing (← get).2)
  | fuel + 1, live => calculateWith (calculate fuel) live

/-- How deep parentheses may stand in one another. -/
def calculationDepth : Nat := 500

/-- Work out an expression and print it. -/
def expr : Tool := Job.tool fun args => do
  let args := if args.head? = some (text "--") then args.drop 1 else args
  if args.isEmpty then misused 2 (text "missing operand")
  let all : Calculating Figure := do
    let v ← calculate calculationDepth true
    match ← nextWord? with
    | some t => throw (.unexpected t)
    | none   => return v
  match all.run (args, []) with
  | .error f     => quitWith 2 f.message
  | .ok (v, _)   => do
    print (v.toText ++ ['\n'])
    setCode (if v.isNothing then 1 else 0)

/-! ## Conditions -/

/-- Where files are looked for, and the name that complaints are made in. -/
structure ConditionScene where
  disk : Disk
  dir : Place

/-- A condition that is worked off: the arguments from the current one on. A fault is a complaint. -/
abbrev Condition := ReaderT ConditionScene (StateT (List Text × Text) (Except Text))

/-- Take an argument. -/
def Condition.take : Condition Text := do
  match ← get with
  | (t :: ts, _) => do
    set (ts, t)
    return t
  | ([], last)   => throw (text "missing argument after " ++ quoted last)

/-- The number that an argument is. -/
def conditionNumber (t : Text) : Condition Int := do
  let core := (t.dropWhile isSpace).reverse.dropWhile isSpace |>.reverse
  let digits := if core.head? = some '+' then core.drop 1 else core
  match wholeFigure? digits with
  | some n => return n
  | none   => throw (text "invalid integer " ++ quoted t)

/-- A condition on one argument. -/
def unaryHolds (c : Char) (t : Text) : Condition Bool := do
  match c with
  | 'n' => return !t.isEmpty
  | 'z' => return t.isEmpty
  | 't' => do
    discard (conditionNumber t)
    return false
  | c   => do
    let s ← read
    return Shell.fileHas s.disk s.dir c t

/-- Letters of conditions on one argument. -/
def conditionLetters : List Char := text "abcdefgGhkLnNOprsStuwxz"

/-- An argument is an operator for one argument. -/
def unaryLetter? (t : Text) : Option Char := match t with
  | ['-', c] => if c ∈ conditionLetters then some c else none
  | _        => none

/-- An argument is an operator for two arguments. -/
def isBinaryWord (t : Text) : Bool :=
  t == text "==" || (Shell.binaryNames.any fun n => n.toList == t && n != "<" && n != ">")

/-- A condition on two arguments. -/
def binaryHolds (op a b : Text) : Condition Bool := do
  let numbers (holds : Int → Int → Bool) : Condition Bool := do
    let m ← conditionNumber a
    return holds m (← conditionNumber b)
  match String.ofList op with
  | "="   => return a == b
  | "=="  => return a == b
  | "!="  => return a != b
  | "-eq" => numbers fun m n => m == n
  | "-ne" => numbers fun m n => m != n
  | "-ge" => numbers fun m n => decide (n ≤ m)
  | "-gt" => numbers fun m n => decide (n < m)
  | "-le" => numbers fun m n => decide (m ≤ n)
  | "-lt" => numbers fun m n => decide (m < n)
  | op    => do
    let s ← read
    let placeAt (t : Text) : Option Place := (s.disk.find? s.dir (pathOf t)).map (·.1)
    let isThere := (placeAt a).isSome
    let isThereToo := (placeAt b).isSome
    -- What is not there counts as old; of two files none is newer.
    return match op with
    | "-ef" => isThere && placeAt a == placeAt b
    | "-nt" => isThere && !isThereToo
    | "-ot" => !isThere && isThereToo
    | _     => false

/-- A condition of one argument, or of an operator and its arguments; `self` is for what stands between parentheses.
    `fuel` bounds the negations. -/
def conditionTerm (self : Condition Bool) : Nat → Condition Bool
  | 0        => return false
  | fuel + 1 => do
    match (← get).1 with
    | ['!'] :: _ :: _          => do
      discard Condition.take
      return !(← conditionTerm self fuel)
    | a :: op :: b :: _        =>
      if isBinaryWord op then do
        set ((← get).1.drop 3, b)
        binaryHolds op a b
      else if a = ['('] then inside self
      else unary a (op :: b :: (← get).1.drop 3)
    | a :: rest                => if a = ['('] && !rest.isEmpty then inside self else unary a rest
    | []                       => do
      discard Condition.take
      return false
where
  /-- What stands between parentheses. -/
  inside (self : Condition Bool) : Condition Bool := do
    discard Condition.take
    let holds ← self
    match (← get).1 with
    | [')'] :: _ => do
      discard Condition.take
      return holds
    | t :: _     => throw (text "')' expected, found " ++ t)
    | []         => throw (text "')' expected")
  /-- A condition on one argument, or an argument that is not empty. -/
  unary (a : Text) (rest : List Text) : Condition Bool := do
    match unaryLetter? a, rest with
    | some c, b :: more => do
      set (more, b)
      unaryHolds c b
    | _,      rest      => do
      set (rest, a)
      return !a.isEmpty

/-- Conditions that are joined. `fuel` bounds how deep they stand in one another, and their number. -/
def conditionHolds : Nat → Condition Bool
  | 0        => return false
  | fuel + 1 => do
    let term := conditionTerm (conditionHolds fuel) fuel
    let both ← joined fuel term (text "-a") (fun a b => a && b) (← term)
    let conjunction : Condition Bool := do joined fuel term (text "-a") (fun a b => a && b) (← term)
    joined fuel conjunction (text "-o") (fun a b => a || b) both
where
  /-- What follows a condition with a word between. -/
  joined (fuel : Nat) (term : Condition Bool) (word : Text) (f : Bool → Bool → Bool) (a : Bool) : Condition Bool :=
    match fuel with
    | 0        => return a
    | fuel + 1 => do
      match (← get).1 with
      | w :: _ =>
        if w = word then
          discard Condition.take
          joined fuel term word f (f a (← term))
        else return a
      | []     => return a

/-- The most arguments of a condition. -/
def conditionLimit : Nat := 1000

/-- A condition of two arguments; `last` is the last argument of all. -/
def conditionOfTwo (last a b : Text) : Condition Bool := do
  if a = ['!'] then return b.isEmpty
  match unaryLetter? a with
  | some c => unaryHolds c b
  | none   =>
    if a.length = 2 ∧ a.head? = some '-' then throw (quoted a ++ text ": unary operator expected")
    else throw (text "missing argument after " ++ quoted last)

/-- A condition of any number of arguments, all of which it takes. -/
def conditionOfAll (args : List Text) : Condition Bool := do
  set (args, ([] : Text))
  let holds ← conditionHolds conditionLimit
  match (← get).1 with
  | t :: _ => throw (text "extra argument " ++ quoted t)
  | []     => return holds

/-- A condition of three arguments. -/
def conditionOfThree (a op b : Text) : Condition Bool := do
  if isBinaryWord op then binaryHolds op a b
  else if a = ['!'] then return !(← conditionOfTwo b op b)
  else if a = ['('] ∧ b = [')'] then return !op.isEmpty
  else if op = text "-a" ∨ op = text "-o" then conditionOfAll [a, op, b]
  else throw (quoted op ++ text ": binary operator expected")

/-- A condition of all the arguments; how many there are tells what they mean. -/
def wholeCondition : List Text → Condition Bool
  | []                   => return false
  | [a]                  => return !a.isEmpty
  | [a, b]               => conditionOfTwo b a b
  | [a, op, b]           => conditionOfThree a op b
  | [['!'], a, op, b]    => return !(← conditionOfThree a op b)
  | [['('], a, b, [')']] => conditionOfTwo [')'] a b
  | args                 => conditionOfAll args

/-- End as a condition tells. -/
def endByCondition (args : List Text) : Job Unit := do
  let s ← read
  match ((wholeCondition args).run ⟨← diskNow, s.dir⟩).run ([], []) with
  | .ok (holds, _) => setCode (if holds then 0 else 1)
  | .error fault   => quitWith 2 fault

/-- Work out a condition. -/
def testTool : Tool := Job.tool endByCondition

/-- Work out a condition up to a closing bracket. -/
def bracketTool : Tool := Job.tool fun args => do
  if args.getLast? = some [']'] then endByCondition args.dropLast else quitWith 2 (text "missing ']'")

end JavaMend.Host
