import JavaMend.Host.Records.Value
import JavaMend.Host.Pattern.Expression

/-!
# `Host.Records.Program` — programs over records

A program is a list of rules: for the records that a pattern picks, something is done. Expressions have values;
statements are done one after the other.

## Contents
- **Expressions.** `Binary`, `Feature`, `Expr`.
- **Statements.** `Outlet`, `Stmt`.
- **Programs.** `Pattern`, `Rule`, `Function`, `Program`.
-/

namespace JavaMend.Host.Records

open JavaMend Text

/-! ## Expressions -/

/-- Operations on two numbers. -/
inductive Binary where
  | add
  | subtract
  | multiply
  | divide
  | remainder
  | power
deriving DecidableEq, Repr

/-- Comparisons of two values. -/
inductive Comparison where
  | less
  | atMost
  | equal
  | unequal
  | greater
  | atLeast
deriving DecidableEq, Repr

/-- The comparison holds of two values in an order. -/
def Comparison.holds : Comparison → Ordering → Bool
  | .less,    o => o == .lt
  | .atMost,  o => o != .gt
  | .equal,   o => o == .eq
  | .unequal, o => o != .eq
  | .greater, o => o == .gt
  | .atLeast, o => o != .lt

/-- What the language can do by itself. -/
inductive Feature where
  | length
  | substr
  | index
  | split
  | sub
  | gsub
  | locate
  | sprintf
  | toupper
  | tolower
  | int
  | sqrt
  | exp
  | log
  | sin
  | cos
  | atan2
  | rand
  | srand
  | system
  | close
  | fflush
deriving DecidableEq, Repr

/-- Where a line is read from, apart from the records of the input. -/
inductive Inlet where
  | records
  | file
  | command
deriving DecidableEq, Repr

/-- An expression. -/
inductive Expr where
  | number (x : Float)
  | chars (t : Text)
  /-- A regular expression: it is looked for in the record. -/
  | pattern (re : Re)
  | variable (name : Text)
  | field (n : Expr)
  | element (table : Text) (key : List Expr)
  | assign (op : Option Binary) (target value : Expr)
  /-- A number is added to the target; what it was before is the value if `after` holds. -/
  | count (after : Bool) (delta : Float) (target : Expr)
  | binary (op : Binary) (a b : Expr)
  | negate (a : Expr)
  | plus (a : Expr)
  | not (a : Expr)
  | both (a b : Expr)
  | either (a b : Expr)
  | choose (c a b : Expr)
  | matches (negated : Bool) (a b : Expr)
  | isIn (key : List Expr) (table : Text)
  | join (a b : Expr)
  | compare (c : Comparison) (a b : Expr)
  | call (name : Text) (args : List Expr)
  | feature (f : Feature) (args : List Expr)
  | getline (from_ : Inlet) (source : Option Expr) (target : Option Expr)
  /-- An expression between parentheses. -/
  | group (a : Expr)
  /-- Several expressions between parentheses. -/
  | several (es : List Expr)

/-- Something can be assigned to the expression. -/
def Expr.isTarget : Expr → Bool
  | .variable _  => true
  | .field _     => true
  | .element _ _ => true
  | _            => false

/-! ## Statements -/

/-- Where output goes to. -/
inductive Outlet where
  | file
  | append
  | command
deriving DecidableEq, Repr

/-- A statement. -/
inductive Stmt where
  | expr (e : Expr)
  | print (args : List Expr) (outlet : Option (Outlet × Expr))
  | printf (args : List Expr) (outlet : Option (Outlet × Expr))
  | cond (c : Expr) (yes : Stmt) (no : Option Stmt)
  | loop (c : Expr) (body : Stmt)
  | loopAfter (body : Stmt) (c : Expr)
  | forLoop (start : Option Stmt) (c : Option Expr) (step : Option Stmt) (body : Stmt)
  | each (name table : Text) (body : Stmt)
  | block (ss : List Stmt)
  /-- Go on with the next record. -/
  | next
  | nextFile
  | exit (code : Option Expr)
  | giveBack (value : Option Expr)
  | delete (table : Text) (key : Option (List Expr))
  | leave
  | again
  | nothing

/-! ## Programs -/

/-- The records that a rule is for. -/
inductive Selection where
  /-- What is done before the first record. -/
  | start
  /-- What is done after the last one. -/
  | stop
  | all
  | those (e : Expr)
  | range (a b : Expr)

/-- A rule. -/
structure Rule where
  selection : Selection
  action : Stmt

/-- A function. -/
structure Function where
  name : Text
  params : List Text
  body : Stmt

/-- A program. -/
structure Program where
  rules : List Rule
  functions : List Function

end JavaMend.Host.Records
