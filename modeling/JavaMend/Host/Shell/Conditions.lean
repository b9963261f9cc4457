import JavaMend.Host.Shell.Arithmetic

/-!
# `Host.Shell.Conditions` — conditions in brackets

A condition is a row of arguments: operands, operators for one or two of them, and operators that join conditions.
Whether an argument is an operator depends on those after it. All parts are worked out, needed or not.

## Contents
- **Operators.** `Operator`, `operatorOf`, `lexeme`.
- **Values.** `fileHas`, `comparison`.
- **Conditions.** `anyOf`, `allOf`, `negation`, `basic`; `condition`.
-/

namespace JavaMend.Host.Shell

open JavaMend Text

/-! ## Operators -/

/-- What an argument is in a condition. -/
inductive Operator where
  | finish
  | operand
  | unary (c : Char)
  | binary (t : Text)
  | bang
  | all
  | any
  | opening
  | closing
deriving DecidableEq

/-- Letters of conditions on one argument. -/
def unaryLetters : List Char := text "rwxefdcbpugkstznhOGLS"

/-- Conditions on two arguments. -/
def binaryNames : List String :=
  ["=", "!=", "<", ">", "-eq", "-ne", "-ge", "-gt", "-le", "-lt", "-nt", "-ot", "-ef"]

/-- The operator that an argument spells. -/
def operatorOf (t : Text) : Operator :=
  match t with
  | ['!']      => .bang
  | ['(']      => .opening
  | [')']      => .closing
  | ['-', 'a'] => .all
  | ['-', 'o'] => .any
  | t          =>
    if binaryNames.any fun n => n.toList == t then .binary t
    else match t with
      | ['-', c] => if c ∈ unaryLetters then .unary c else .operand
      | _        => .operand

/-- The operator works on two arguments. -/
def Operator.isBinary : Operator → Bool
  | .binary _ => true
  | _         => false

/-- What the first of some arguments is. -/
def lexeme (ts : List Text) : Operator :=
  match ts with
  | []        => .finish
  | t :: rest =>
    match operatorOf t, rest with
    | .unary _, []           => .operand
    | .unary c, s :: _ :: _  => if (operatorOf s).isBinary then .operand else .unary c
    | .opening, []           => .operand
    | o,        _            => o

/-! ## Values -/

/-- A path leads to something with a property. -/
def fileHas (d : Disk) (dir : Place) (property : Char) (path : Text) : Bool :=
  let found := d.find? dir (pathOf path)
  match property with
  | 'h' => isLink
  | 'L' => isLink
  | 'f' => found.any fun e => d.isFile e.1
  | 'd' => found.any fun e => e.2 == .folder
  | 'c' => found.any fun e => match e.2 with
    | .device _ => true
    | _         => false
  | 's' => found.any fun e => match e.2 with
    | .file data _ => !data.isEmpty
    | .folder      => true
    | _            => false
  | 'x' => found.any fun e => match e.2 with
    | .file _ x => x
    | .folder   => true
    | _         => false
  | p   => p ∈ text "erwOG" && found.isSome
where
  /-- The path names a link. -/
  isLink : Bool := match d.findEntry dir (pathOf path) with
    | .ok (_, .link _) => true
    | _                => false

/-- A condition on two arguments. -/
def comparison (operator a b : Text) : Sh Bool := do
  let numbers (holds : Int → Int → Bool) : Sh Bool := do return holds (← decimalNumber a) (← decimalNumber b)
  match String.ofList operator with
  | "="   => return a == b
  | "!="  => return a != b
  | "<"   => return before a b
  | ">"   => return before b a
  | "-eq" => numbers fun m n => m == n
  | "-ne" => numbers fun m n => m != n
  | "-ge" => numbers fun m n => decide (n ≤ m)
  | "-gt" => numbers fun m n => decide (n < m)
  | "-le" => numbers fun m n => decide (m ≤ n)
  | "-lt" => numbers fun m n => decide (m < n)
  | "-ef" => do
    let s ← get
    let placeAt (t : Text) : Option Place := (s.world.disk.find? s.shell.dir (pathOf t)).map (·.1)
    return (placeAt a).isSome && placeAt a == placeAt b
  | _     => return false

/-! ## Conditions -/

/-- A condition that is being worked out: the arguments from the current one on. -/
abbrev Test := StateT (List Text) Sh

/-- Complain about a condition. -/
def Test.fault {α : Type} (about : Text) (complaint : String) : Test α :=
  (fail ((if about.isEmpty then [] else about ++ text ": ") ++ complaint.toList) : Sh α)

/-- What the argument after the current one is. -/
def Test.after : Test Operator := do return lexeme ((← get).drop 1)

/-- Go on by so many arguments; what is there then. -/
def Test.advance (n : Nat) : Test Operator := do
  modify (·.drop n)
  return lexeme (← get)

mutual

/-- Conditions one of which holds. The first argument is given as what it is. `fuel` bounds the steps. -/
def anyOf : Nat → Operator → Test Bool
  | 0,        _ => return false
  | fuel + 1, o => do
    let a ← allOf fuel o
    if (← Test.after) = .any then
      let b ← anyOf fuel (← Test.advance 2)
      return a || b
    return a

/-- Conditions that all hold. -/
def allOf : Nat → Operator → Test Bool
  | 0,        _ => return false
  | fuel + 1, o => do
    let a ← negation fuel o
    if (← Test.after) = .all then
      let b ← allOf fuel (← Test.advance 2)
      return a && b
    return a

/-- A condition that may be negated. -/
def negation : Nat → Operator → Test Bool
  | 0,        _ => return false
  | fuel + 1, o => do
    if o ≠ .bang then return ← basic fuel o
    let next ← Test.after
    if next ≠ .finish then modify (·.drop 1)
    return !(← negation fuel next)

/-- A condition that is not joined. -/
def basic : Nat → Operator → Test Bool
  | 0,        _ => return false
  | fuel + 1, o => do
    match o with
    | .finish  => return false
    | .opening => do
      let next ← Test.advance 1
      if next = .closing then return false
      let holds ← anyOf fuel next
      if (← Test.advance 1) ≠ .closing then Test.fault [] "closing paren expected"
      return holds
    | .unary c => do
      match (← get).drop 1 with
      | []        => Test.fault ['-', c] "argument expected"
      | t :: rest => do
        set (t :: rest)
        match c with
        | 'z' => return t.isEmpty
        | 'n' => return !t.isEmpty
        | 't' => do
          discard (decimalNumber t : Sh Int)
          return false
        | c   => do
          let s ← (getThe State : Sh State)
          return fileHas s.world.disk s.shell.dir c t
    | _        => do
      match ← get with
      | a :: rest =>
        match lexeme rest, rest with
        | .binary operator, _ :: []        => Test.fault operator "argument expected"
        | .binary operator, _ :: b :: more => do
          set (b :: more)
          (comparison operator a b : Sh Bool)
        | _,                _              => return !a.isEmpty
      | []        => return false

end

/-- The condition that arguments spell holds. -/
def conditionOf (args : List Text) : Sh Bool := do
  let work : Test Bool := do
    let fuel := 8 * args.length + 8
    let first : Operator := match args with
      | [_, o, _] => if (operatorOf o).isBinary then .operand else lexeme args
      | _         => lexeme args
    let holds ← anyOf fuel first
    match ← get with
    | t :: _ :: _ => Test.fault t "unexpected operator"
    | _           => return holds
  return (← work.run args).1

/-- The condition that arguments spell holds, where the number of arguments may settle what they are. -/
def condition : List Text → Sh Bool
  | []      => return false
  | a :: as => do
    let isPair := match as with
      | [o, _] => (operatorOf o).isBinary
      | _      => false
    if isPair || (as.length != 2 && as.length != 3) then conditionOf (a :: as)
    else if a = ['('] && as.getLast? = some [')'] then conditionOf as.dropLast
    else if a = ['!'] then return !(← condition as)
    else conditionOf (a :: as)

end JavaMend.Host.Shell
