import JavaMend.Host.Pattern.Reader
import JavaMend.Host.Records.Token

/-!
# `Host.Records.Reader` — how programs over records are spelled

Expressions are read level by level, from those that hold together most loosely to those that hold most tightly. What
stands between parentheses begins anew.

## Contents
- **Reading.** `Reading`, `peek`, `skip`, `refuse`, `expect`.
- **Regular expressions.** `patternMarks`, `lackOf`, `readPatternText`.
- **Expressions.** `readPrimary`, `readUnary`, `readSum`, `readJoined`, `readChoice`, `readExpr`.
- **Statements.** `readSimple`, `readStmt`.
- **Programs.** `readRule`, `readProgram`.
-/

namespace JavaMend.Host.Records

open JavaMend Text

/-! ## Reading -/

/-- What is known of the place where a program is read. -/
structure Surroundings where
  rest : List Lexeme
  inFunction : Bool
  loops : Nat
  /-- The rule is done before or after the records. -/
  noRecords : Bool
  /-- Functions that are called, with the number of arguments and the line. -/
  calls : List (Text × Nat × Nat)

/-- Reading a program; a fault is a complaint. -/
abbrev Reading := StateT Surroundings (Except Text)

/-- The next lexeme. -/
def peekLexeme : Reading Lexeme := return (← get).rest.head?.getD ⟨.finish, 1, 0, 0⟩

/-- The next token. -/
def peek : Reading Token := return (← peekLexeme).token

/-- Pass over the next token. -/
def skip : Reading Unit := modify fun s => { s with rest := s.rest.tail }

/-- A complaint about a line. -/
def onLine (line : Nat) (complaint : Text) : Text := text "line " ++ ofNat line ++ text ": " ++ complaint

/-- Complain about the line of the next token. -/
def complainHere {α : Type} (complaint : Text) : Reading α := do
  throw (onLine (← peekLexeme).line complaint)

/-- The next token is not what should stand here. -/
def refuse {α : Type} : Reading α := do
  let l ← peekLexeme
  let ends := match l.token with
    | .newline     => true
    | .sign "\x7d" => true
    | .finish      => true
    | _            => false
  match l.token with
  | .bad complaint =>
    if complaint.head? = some 'u' then throw (ofNat l.line ++ text ": " ++ complaint) else complainHere complaint
  | .finish        =>
    if l.braces != 0 then complainHere (text "missing \x7d near end of file")
    else complainHere (text "syntax error at or near end of line")
  | token          =>
    -- Behind a closing brace the parentheses are counted anew, so the count before it tells what is missing.
    if ends && l.parens != 0 then complainHere (text "missing ) near " ++ token.shown)
    else complainHere (text "syntax error at or near " ++ token.shown)

/-- The next token is the sign. -/
def nextIs (s : String) : Reading Bool := return (← peek).isSign s

/-- Pass over a sign that has to stand here. -/
def expect (s : String) : Reading Unit := do
  if ← nextIs s then skip else refuse

/-- Pass over newlines. -/
def skipNewlines : Nat → Reading Unit
  | 0        => return
  | fuel + 1 => do
    match ← peek with
    | .newline => do
      skip
      skipNewlines fuel
    | _        => return

/-- Take a name. -/
def takeName : Reading Text := do
  match ← peek with
  | .name t   => do
    skip
    return t
  | .callee t => do
    skip
    return t
  | _         => refuse

/-! ## Regular expressions -/

/-- The characters of a regular expression, with escapes resolved; those after a backslash have no special meaning.
    `fuel` bounds the characters. -/
def patternMarks : Nat → Text → List Mark
  | 0,        _             => []
  | fuel + 1, '\\' :: c :: r =>
    let plain (c : Char) : List Mark := (c, false) :: patternMarks fuel r
    match c with
    | 'n' => plain '\n'
    | 't' => plain '\t'
    | 'r' => plain '\r'
    | 'f' => plain '\x0c'
    | 'v' => plain '\x0b'
    | 'a' => plain '\x07'
    | 'b' => plain '\x08'
    | 'x' =>
      let digits := (r.take 2).takeWhile fun c => (hexValue? c.toLower).isSome
      if digits.isEmpty then plain 'x'
      else (Char.ofNat (ofDigits 16 (digits.map Char.toLower)), false) :: patternMarks fuel (r.drop digits.length)
    | c   =>
      if isOctal c then
        let (c, rest) := octalEscape (c :: r)
        (c, false) :: patternMarks fuel rest
      else plain c
  | fuel + 1, c :: r         => (c, true) :: patternMarks fuel r
  | _,        []             => []

/-- The wording of a fault in a regular expression. -/
def patternFault (why : Text) (source : Text) : Text :=
  text "regular expression compile failed (" ++ why ++ text ")\n" ++ source

/-- What is wrong with a regular expression. -/
def faultWording : ReFault → Text
  | .openGroup       => text "missing ')'"
  | .nothingToRepeat => text "missing operand"
  | .closedGroup     => text "missing '('"
  | .openBracket     => text "bad class -- [], [^] or ["
  | .noItems         => text "bad class -- [], [^] or ["
  | .badClass        => text "bad class -- [], [^] or ["
  | .endsInBackslash => text "missing operand"
  | .badBraces       => text "bad interval expression"
  | f                => f.message

/-- What follows a bracket expression, after its opening bracket. -/
def behindBracket (ms : List Mark) : List Mark :=
  let ms := if ms.head? = some ('^', true) then ms.drop 1 else ms
  ((ms.drop 1).dropWhile fun m => m != (']', true)).drop 1

/-- Where an operand should be, there is none; `waiting` says that one should be here. `fuel` bounds the characters. -/
def lackOf (source : Text) : Nat → Bool → List Mark → Option Text
  | 0,        _,       _            => none
  | _ + 1,    waiting, []           => if waiting then some (text "missing operand") else none
  | fuel + 1, waiting, (c, special) :: r =>
    let bad := some (text "missing operand")
    if !special then lackOf source fuel false r
    else match c with
      | '|' => if waiting then bad else lackOf source fuel true r
      | '(' =>
        match r with
        | []               => none
        | (')', true) :: r => if waiting then bad else lackOf source fuel false r
        | r                => lackOf source fuel true r
      | ')' => if waiting then (if r.length + 1 = source.length then none else bad) else lackOf source fuel false r
      | '[' => lackOf source fuel false (behindBracket r)
      | '^' =>
        if waiting && r.head?.any fun m => m = ('*', true) || m = ('+', true) then some (text "syntax error ^* or ^+")
        else lackOf source fuel false r
      | c   => if waiting && (c == '*' || c == '+' || c == '?') then bad else lackOf source fuel false r

/-- The regular expression that a text spells. -/
def readPatternText (source : Text) : Except Text Re :=
  let marks := patternMarks (source.length + 1) source
  match if source.isEmpty then none else lackOf source (marks.length + 1) true marks with
  | some why => .error (patternFault why source)
  | none     => match readRe ⟨true, true⟩ marks with
    | .ok (re, _)  => .ok re
    | .error f     => .error (patternFault (faultWording f) source)

/-! ## Expressions -/

/-- How many arguments a feature takes. -/
def Feature.arity : Feature → Nat × Nat
  | .length  => (0, 1)
  | .substr  => (2, 3)
  | .index   => (2, 2)
  | .split   => (2, 3)
  | .sub     => (2, 3)
  | .gsub    => (2, 3)
  | .locate  => (2, 2)
  | .sprintf => (1, 255)
  | .atan2   => (2, 2)
  | .rand    => (0, 0)
  | .srand   => (0, 1)
  | .fflush  => (0, 1)
  | _        => (1, 1)

/-- Something to read an expression with; it is told whether a greater sign ends it. -/
abbrev Recursion := Bool → Reading Expr

/-- Read expressions with commas between them. `fuel` bounds their number. -/
def readList (self : Recursion) (ends : Bool) : Nat → Reading (List Expr)
  | 0        => refuse
  | fuel + 1 => do
    let e ← self ends
    if ← nextIs "," then
      skip
      return e :: (← readList self ends fuel)
    return [e]

/-- How many expressions a list may have. -/
def listLimit : Nat := 10000

/-- Read arguments after an opening parenthesis, and the closing one. -/
def readArgs (self : Recursion) : Reading (List Expr) := do
  if ← nextIs ")" then
    skip
    return []
  let es ← readList self false listLimit
  expect ")"
  return es

/-- Read what can be assigned to, if it stands here: a variable, an element or a field. -/
def readTarget? (operand : Reading Expr) (self : Recursion) : Reading (Option Expr) := do
  match ← peek with
  | .name t   => do
    skip
    if ← nextIs "[" then
      skip
      let key ← readList self false listLimit
      expect "]"
      return some (.element t key)
    return some (.variable t)
  | .sign "$" => do
    skip
    match (← get).rest with
    | ⟨.name ['N', 'F'], _, _, _⟩ :: ⟨.sign s, _, _, _⟩ :: _ =>
      -- Behind the number of fields the sign counts that and not the field.
      if s = "++" ∨ s = "--" then
        skip
        skip
        return some (.field (.count true (if s = "++" then 1 else -1) (.variable ['N', 'F'])))
      else return some (.field (← operand))
    | _ => return some (.field (← operand))
  | _         => return none

/-- An expression that is used as a regular expression; a constant is read as one. -/
def asPattern (e : Expr) : Reading Expr := do
  match e with
  | .chars t => do
    match readPatternText t with
    | .ok re   => return .pattern re
    | .error f => complainHere f
  | e        => return e

/-- The arguments of a feature, of which one may be a regular expression. -/
def withPattern (f : Feature) (args : List Expr) : Reading (List Expr) := do
  match f, args with
  | .locate, [e, p]        => return [e, ← asPattern p]
  | .sub,    p :: r        => return (← asPattern p) :: r
  | .gsub,   p :: r        => return (← asPattern p) :: r
  | _,       args          => return args

/-- Read a feature after its name. -/
def readFeature (self : Recursion) (f : Feature) (name : Text) : Reading Expr := do
  let line := (← peekLexeme).line
  if ← nextIs "(" then
    skip
    let args ← readArgs self
    let (least, most) := f.arity
    if args.length < least || most < args.length then
      if f = .length then refuse
      throw (onLine line (text "wrong number of arguments in call to " ++ name))
    return .feature f (← withPattern f args)
  if f = .length then return .feature f [] else refuse

/-- What may follow expressions between parentheses that are not a key. -/
def endsPrinted : Token → Bool
  | .newline => true
  | .finish  => true
  | .sign s  => s ∈ [";", "\x7d", ">", ">>", "|"]
  | _        => false

/-- Read an operand. `fuel` bounds how deep they stand in one another. -/
def readPrimary (self : Recursion) (unary : Reading Expr) : Nat → Reading Expr
  | 0        => refuse
  | fuel + 1 => do
    match ← peek with
    | .number x _       => do
      skip
      return .number x
    | .chars t          => do
      skip
      return .chars t
    | .pattern source   => do
      match readPatternText source with
      | .ok re   => do
        skip
        return .pattern re
      | .error e => complainHere e
    | .sign "("         => do
      skip
      let es ← readList self false listLimit
      expect ")"
      match es with
      | [e] => return .group e
      | es  =>
        let next ← peek
        if next.isKeyword "in" || endsPrinted next then return .several es else refuse
    | .sign "++"        => do
      skip
      countFirst fuel 1
    | .sign "--"        => do
      skip
      countFirst fuel (-1)
    | .sign "-"         => do
      skip
      return .negate (← readPrimary self unary fuel)
    | .sign "+"         => do
      skip
      return .plus (← readPrimary self unary fuel)
    | .sign "!"         => do
      skip
      return .not (← readPrimary self unary fuel)
    | .callee t         => do
      let line := (← peekLexeme).line
      skip
      expect "("
      let args ← readArgs self
      modify fun s => { s with calls := (t, args.length, line) :: s.calls }
      return .call t args
    | .feature f name   => do
      skip
      readFeature self f name
    | .keyword "getline" => do
      skip
      let target ← readTarget? (readPrimary self unary fuel) self
      if ← nextIs "<" then
        skip
        return .getline .file (some (← unary)) target
      return .getline .records none target
    | _                 => do
      match ← readTarget? (readPrimary self unary fuel) self with
      | some e => return e
      | none   => refuse
where
  /-- A target whose value is changed first. -/
  countFirst (fuel : Nat) (delta : Float) : Reading Expr := do
    match ← readTarget? (readPrimary self unary fuel) self with
    | some e => return .count false delta e
    | none   => refuse

/-- Read an operand with what is behind it. -/
def readPostfix (self : Recursion) (unary : Reading Expr) : Reading Expr := do
  let e ← readPrimary self unary listLimit
  if e.isTarget then
    if ← nextIs "++" then
      skip
      return .count true 1 e
    if ← nextIs "--" then
      skip
      return .count true (-1) e
  return e

/-- Read lines of commands that stand before bars. `fuel` bounds their number. -/
def readPiped (self : Recursion) (ends : Bool) (unary : Reading Expr) : Nat → Expr → Reading Expr
  | 0,        e => return e
  | fuel + 1, e => do
    if ends then return e
    match (← get).rest with
    | ⟨.sign "|", _, _, _⟩ :: ⟨.keyword "getline", _, _, _⟩ :: _ => do
      skip
      skip
      let target ← readTarget? (readPrimary self unary listLimit) self
      readPiped self ends unary fuel (.getline .command (some e) target)
    | _ => return e

/-- Read an operand with signs before it and powers behind it. `fuel` bounds the signs. -/
def readUnary (self : Recursion) (ends : Bool) : Nat → Reading Expr
  | 0        => refuse
  | fuel + 1 => do
    match ← peek with
    | .sign "!" => do
      skip
      return .not (← readUnary self ends fuel)
    | .sign "-" => do
      skip
      return .negate (← readUnary self ends fuel)
    | .sign "+" => do
      skip
      return .plus (← readUnary self ends fuel)
    | _         => do
      let unary := readUnary self ends fuel
      let e ← readPostfix self unary
      let e ← if ← nextIs "^" then do
          skip
          pure (.binary .power e (← unary))
        else pure e
      readPiped self ends unary listLimit e

/-- Read operands with operators between them, from left to right. `fuel` bounds their number. -/
def readChain (operand : Reading Expr) (op? : Token → Option (Expr → Expr → Expr)) : Nat → Expr → Reading Expr
  | 0,        e => return e
  | fuel + 1, e => do
    match op? (← peek) with
    | none   => return e
    | some f => do
      skip
      readChain operand op? fuel (f e (← operand))

/-- Read a row of operands of one level. -/
def readLevel (operand : Reading Expr) (op? : Token → Option (Expr → Expr → Expr)) : Reading Expr := do
  readChain operand op? listLimit (← operand)

/-- Read products. -/
def readProduct (self : Recursion) (ends : Bool) : Reading Expr :=
  readLevel (readUnary self ends listLimit) fun
    | .sign "*" => some (.binary .multiply)
    | .sign "/" => some (.binary .divide)
    | .sign "%" => some (.binary .remainder)
    | _         => none

/-- Read sums. -/
def readSum (self : Recursion) (ends : Bool) : Reading Expr :=
  readLevel (readProduct self ends) fun
    | .sign "+" => some (.binary .add)
    | .sign "-" => some (.binary .subtract)
    | _         => none

/-- An operand begins with the token, and it is no sign that stands between operands. -/
def Token.beginsOperand : Token → Bool
  | .name _     => true
  | .callee _   => true
  | .number _ _ => true
  | .chars _    => true
  | .pattern _  => true
  | .feature _ _ => true
  | .sign s     => s ∈ ["(", "$", "!", "++", "--"]
  | _           => false

/-- Read operands that are joined. `fuel` bounds their number. -/
def readJoinedTo (self : Recursion) (ends : Bool) : Nat → Expr → Reading Expr
  | 0,        e => return e
  | fuel + 1, e => do
    if (← peek).beginsOperand then readJoinedTo self ends fuel (.join e (← readSum self ends)) else return e

/-- The operation of a sign that assigns. -/
def assignment? : Token → Option (Option Binary)
  | .sign "="  => some none
  | .sign "+=" => some (some .add)
  | .sign "-=" => some (some .subtract)
  | .sign "*=" => some (some .multiply)
  | .sign "/=" => some (some .divide)
  | .sign "%=" => some (some .remainder)
  | .sign "^=" => some (some .power)
  | _          => none

/-- Read joined operands, or an assignment. -/
def readJoined (self : Recursion) (ends : Bool) : Reading Expr := do
  let e ← readSum self ends
  if e.isTarget then
    if let some op := assignment? (← peek) then
      skip
      return .assign op e (← self ends)
  match e with
  | .several _ => return e
  | _          => readJoinedTo self ends listLimit e

/-- Read comparisons. -/
def readComparison (self : Recursion) (ends : Bool) : Reading Expr :=
  readLevel (readJoined self ends) fun
    | .sign "<"  => some (.compare .less)
    | .sign "<=" => some (.compare .atMost)
    | .sign "==" => some (.compare .equal)
    | .sign "!=" => some (.compare .unequal)
    | .sign ">"  => if ends then none else some (.compare .greater)
    | .sign ">=" => some (.compare .atLeast)
    | _          => none

/-- Read matches. -/
def readMatches (self : Recursion) (ends : Bool) : Reading Expr := do
  readChainOf listLimit (← readComparison self ends)
where
  /-- Read texts and regular expressions in turn. `fuel` bounds their number. -/
  readChainOf : Nat → Expr → Reading Expr
    | 0,        e => return e
    | fuel + 1, e => do
      match ← peek with
      | .sign "~"  => do
        skip
        readChainOf fuel (.matches false e (← asPattern (← readComparison self ends)))
      | .sign "!~" => do
        skip
        readChainOf fuel (.matches true e (← asPattern (← readComparison self ends)))
      | _          => return e

/-- Read tests for keys. `fuel` bounds their number. -/
def readMembership : Nat → Expr → Reading Expr
  | 0,        e => return e
  | fuel + 1, e => do
    if (← peek).isKeyword "in" then
      skip
      let table ← takeName
      let key := match e with
        | .several es => es
        | e           => [e]
      readMembership fuel (.isIn key table)
    else return e

/-- Read conjunctions and disjunctions. -/
def readEither (self : Recursion) (ends : Bool) : Reading Expr :=
  let member : Reading Expr := do readMembership listLimit (← readMatches self ends)
  let conjunction := readLevel member fun
    | .sign "&&" => some .both
    | _          => none
  readLevel conjunction fun
    | .sign "||" => some .either
    | _          => none

/-- Read an expression, with `self` for those inside. -/
def readChoice (self : Recursion) (ends : Bool) : Reading Expr := do
  let c ← readEither self ends
  if ← nextIs "?" then
    skip
    let a ← self false
    expect ":"
    return .choose c a (← self ends)
  return c

/-- Read an expression. `fuel` bounds how deep expressions stand in one another. -/
def readExprSteps : Nat → Recursion
  | 0,        _    => refuse
  | fuel + 1, ends => readChoice (readExprSteps fuel) ends

/-- How deep expressions may stand in one another. -/
def depthOfExpressions : Nat := 200

/-- Read an expression; `ends` tells that a greater sign ends it. -/
def readExpr (ends : Bool) : Reading Expr := readExprSteps depthOfExpressions ends

/-! ## Statements -/

/-- The end of a statement; a brace is left there. -/
def endStmt : Reading Unit := do
  match ← peek with
  | .newline     => skip
  | .sign ";"    => skip
  | .sign "\x7d" => return
  | _            => refuse

/-- A statement may end here. -/
def atEnd : Reading Bool := do
  match ← peek with
  | .newline => return true
  | .finish  => return true
  | .sign s  => return s == ";" || s == "\x7d"
  | _        => return false

/-- Read an expression unless the statement ends. -/
def readOptional : Reading (Option Expr) := do
  if ← atEnd then return none else return some (← readExpr false)

/-- Read what is printed, and where to. -/
def readPrinted : Reading (List Expr × Option (Outlet × Expr)) := do
  let next ← peek
  let args ← if endsPrinted next then pure [] else readList readExpr true listLimit
  let args := match args with
    | [.several es] => es
    | es            => es
  let outlet ← match ← peek with
    | .sign ">"  => some <$> target .file
    | .sign ">>" => some <$> target .append
    | .sign "|"  => some <$> target .command
    | _          => pure none
  return (args, outlet)
where
  /-- Where the output goes to. -/
  target (o : Outlet) : Reading (Outlet × Expr) := do
    skip
    return (o, ← readExpr false)

/-- Read a statement that is no loop, condition or block. -/
def readSimple : Reading Stmt := do
  match ← peek with
  | .keyword "print"    => do
    skip
    let (args, outlet) ← readPrinted
    endStmt
    return .print args outlet
  | .keyword "printf"   => do
    skip
    let (args, outlet) ← readPrinted
    if args.isEmpty then refuse
    endStmt
    return .printf args outlet
  | .keyword "next"     => do
    if (← get).noRecords || (← get).inFunction then complainHere (text "improper use of next")
    skip
    endStmt
    return .next
  | .keyword "nextfile" => do
    if (← get).noRecords || (← get).inFunction then complainHere (text "improper use of nextfile")
    skip
    endStmt
    return .nextFile
  | .keyword "exit"     => do
    skip
    let e ← readOptional
    endStmt
    return .exit e
  | .keyword "return"   => do
    if !(← get).inFunction then complainHere (text "return outside function body")
    skip
    let e ← readOptional
    endStmt
    return .giveBack e
  | .keyword "break"    => do
    if (← get).loops = 0 then complainHere (text "break statement outside of loop")
    skip
    endStmt
    return .leave
  | .keyword "continue" => do
    if (← get).loops = 0 then complainHere (text "continue statement outside of loop")
    skip
    endStmt
    return .again
  | .keyword "delete"   => do
    skip
    let table ← takeName
    let key ← if ← nextIs "[" then do
        skip
        let key ← readList readExpr false listLimit
        expect "]"
        pure (some key)
      else pure none
    endStmt
    return .delete table key
  | _                   => do
    let e ← readExpr false
    match e with
    | .several _ => refuse
    | _          => do
      endStmt
      return .expr e

/-- Read a condition between parentheses. -/
def readCondition : Reading Expr := do
  expect "("
  let e ← readExpr false
  expect ")"
  return e

/-- Read statements up to a closing brace. `fuel` bounds their number. -/
def readStmts (self : Reading Stmt) : Nat → Reading (List Stmt)
  | 0        => refuse
  | fuel + 1 => do
    match ← peek with
    | .sign "\x7d" => do
      skip
      return []
    | _            => do
      let s ← self
      return s :: (← readStmts self fuel)

/-- Read the body of a loop. -/
def readBody (self : Reading Stmt) : Reading Stmt := do
  skipNewlines listLimit
  modify fun s => { s with loops := s.loops + 1 }
  let body ← self
  modify fun s => { s with loops := s.loops - 1 }
  return body

/-- Read a loop after its word. -/
def readFor (self : Reading Stmt) : Reading Stmt := do
  expect "("
  match (← get).rest with
  | ⟨.name x, _, _, _⟩ :: ⟨.keyword "in", _, _, _⟩ :: ⟨.name t, _, _, _⟩ :: ⟨.sign ")", _, _, _⟩ :: _ => do
    skip
    skip
    skip
    skip
    return .each x t (← readBody self)
  | _ => do
    let start ← if ← nextIs ";" then pure none else some <$> readExpr false
    expect ";"
    let c ← if ← nextIs ";" then pure none else some <$> readExpr false
    expect ";"
    let step ← if ← nextIs ")" then pure none else some <$> readExpr false
    expect ")"
    return .forLoop (start.map .expr) c (step.map .expr) (← readBody self)

/-- Read a statement, with `self` for those inside. -/
def readStmtStep (self : Reading Stmt) : Reading Stmt := do
  match ← peek with
  | .sign "\x7b"     => do
    skip
    return .block (← readStmts self listLimit)
  | .sign ";"        => do
    skip
    return .nothing
  | .newline         => do
    skip
    return .nothing
  | .keyword "if"    => do
    skip
    let c ← readCondition
    skipNewlines listLimit
    let yes ← self
    if (← peek).isKeyword "else" then
      skip
      return .cond c yes (some (← self))
    return .cond c yes none
  | .keyword "while" => do
    skip
    let c ← readCondition
    return .loop c (← readBody self)
  | .keyword "do"    => do
    skip
    let body ← readBody self
    if !(← peek).isKeyword "while" then refuse
    skip
    let c ← readCondition
    endStmt
    return .loopAfter body c
  | .keyword "for"   => do
    skip
    readFor self
  | _                => readSimple

/-- Read a statement. `fuel` bounds how deep statements stand in one another. -/
def readStmt : Nat → Reading Stmt
  | 0        => refuse
  | fuel + 1 => readStmtStep (readStmt fuel)

/-- Read a block. -/
def readBlock : Reading Stmt := do
  if ← nextIs "\x7b" then readStmt depthOfExpressions else refuse

/-! ## Programs -/

/-- Pass over a semicolon. -/
def skipSemicolon : Reading Unit := do
  if ← nextIs ";" then skip

/-- Read the names of parameters. `fuel` bounds their number. -/
def readParams : Nat → Reading (List Text)
  | 0        => refuse
  | fuel + 1 => do
    if ← nextIs ")" then
      skip
      return []
    let name ← takeName
    if ← nextIs "," then
      skip
      return name :: (← readParams fuel)
    expect ")"
    return [name]

/-- Read a rule or a function into a program. -/
def readRule (p : Program) : Reading Program := do
  let rule (s : Selection) (action : Stmt) : Program := { p with rules := p.rules ++ [⟨s, action⟩] }
  let alone (action : Stmt) : Reading Stmt := do
    skipSemicolon
    return action
  match ← peek with
  | .keyword "BEGIN"    => do
    skip
    modify fun s => { s with noRecords := true }
    return rule .start (← alone (← readBlock))
  | .keyword "END"      => do
    skip
    modify fun s => { s with noRecords := true }
    return rule .stop (← alone (← readBlock))
  | .keyword "function" => do
    skip
    let line := (← peekLexeme).line
    let name ← takeName
    if p.functions.any fun f => f.name = name then throw (onLine line (text "redefinition of " ++ name))
    expect "("
    let params ← readParams listLimit
    skipNewlines listLimit
    modify fun s => { s with inFunction := true }
    let body ← alone (← readBlock)
    return { p with functions := p.functions ++ [⟨name, params, body⟩] }
  | .sign "\x7b"        => return rule .all (← alone (← readBlock))
  | _                   => do
    let a ← readExpr false
    let selection ← if ← nextIs "," then do
        skip
        pure (Selection.range a (← readExpr false))
      else pure (.those a)
    if ← nextIs "\x7b" then return rule selection (← alone (← readBlock))
    endStmt
    return rule selection (.print [] none)

/-- Names of functions that may be called with a space behind them are calls as well. -/
def withCalls (names : List Text) : List Lexeme → List Lexeme
  | a :: b :: r =>
    match a.token, b.token with
    | .name t, .sign "(" => (if t ∈ names then { a with token := .callee t } else a) :: withCalls names (b :: r)
    | _,       _         => a :: withCalls names (b :: r)
  | r           => r

/-- The names of the functions that are defined. -/
def definedNames : List Lexeme → List Text
  | ⟨.keyword "function", _, _, _⟩ :: ⟨.name t, l, p, b⟩ :: r   => t :: definedNames (⟨.name t, l, p, b⟩ :: r)
  | ⟨.keyword "function", _, _, _⟩ :: ⟨.callee t, l, p, b⟩ :: r => t :: definedNames (⟨.callee t, l, p, b⟩ :: r)
  | _ :: r                                                      => definedNames r
  | []                                                          => []

/-- Read rules up to the end. `fuel` bounds their number. -/
def readRules : Nat → Program → Reading Program
  | 0,        _ => refuse
  | fuel + 1, p => do
    skipNewlines listLimit
    match ← peek with
    | .finish => return p
    | _       => do
      modify fun s => { s with inFunction := false, loops := 0, noRecords := false }
      readRules fuel (← readRule p)

/-- Check the calls of functions. -/
def checkCalls (p : Program) (lastLine : Nat) (calls : List (Text × Nat × Nat)) : Except Text Unit :=
  calls.reverse.forM fun (name, count, line) =>
    match p.functions.find? fun f => f.name = name with
    | none   => .error (onLine lastLine (text "function " ++ name ++ text " never defined"))
    | some f =>
      if f.params.length < count then .error (onLine line (text "too many arguments in call to " ++ name)) else .ok ()

/-- The program that a text spells. -/
def readProgram (source : Text) : Except Text Program := do
  let lexemes := tokensOf source
  let lexemes := withCalls (definedNames lexemes) lexemes
  let (p, s) ← (readRules listLimit ⟨[], []⟩).run ⟨lexemes, false, 0, false, []⟩
  checkCalls p ((lexemes.getLast?.map (·.line)).getD 1) s.calls
  return p

end JavaMend.Host.Records
