import JavaMend.Host.Records.Program
import JavaMend.Host.Tool

/-!
# `Host.Records.Token` — the tokens of programs over records

A slash begins a regular expression unless it stands behind an operand. Newlines end statements; behind some tokens they
say nothing.

## Contents
- **Tokens.** `Token`, `Token.shown`, `Lexeme`.
- **Constants.** `stringToken`, `patternToken`, `numberToken`.
- **Reading.** `tokensOf`.
-/

namespace JavaMend.Host.Records

open JavaMend Text

/-! ## Tokens -/

/-- A token. -/
inductive Token where
  | name (t : Text)
  /-- A name with a parenthesis right behind it. -/
  | callee (t : Text)
  | number (x : Float) (spelled : Text)
  | chars (t : Text)
  | pattern (source : Text)
  /-- An operator or a bracket. -/
  | sign (s : String)
  | keyword (s : String)
  | feature (f : Feature) (name : Text)
  | newline
  | finish
  /-- Something that is no token, with a complaint. -/
  | bad (complaint : Text)

/-- A token as it is named in complaints. -/
def Token.shown : Token → Text
  | .name t      => t
  | .callee t    => t
  | .number _ t  => t
  | .chars t     => t
  | .pattern t   => '/' :: t ++ ['/']
  | .sign s      => s.toList
  | .keyword s   => s.toList
  | .feature _ t => t
  | .newline     => text "end of line"
  | .finish      => text "end of file"
  | .bad t       => t

/-- The token is the sign. -/
def Token.isSign (s : String) : Token → Bool
  | .sign t => s == t
  | _       => false

/-- The token is the keyword. -/
def Token.isKeyword (s : String) : Token → Bool
  | .keyword t => s == t
  | _          => false

/-- A token with its line, and how many parentheses and braces are open behind it. -/
structure Lexeme where
  token : Token
  line : Nat
  parens : Nat
  braces : Nat

/-- The words of the language. -/
def keywords : List String :=
  ["BEGIN", "END", "function", "if", "else", "while", "do", "for", "in", "break", "continue", "delete", "next", "nextfile",
   "exit", "return", "getline", "print", "printf"]

/-- The names of features. -/
def features : List (String × Feature) :=
  [("length", .length), ("substr", .substr), ("index", .index), ("split", .split), ("sub", .sub), ("gsub", .gsub),
   ("match", .locate), ("sprintf", .sprintf), ("toupper", .toupper), ("tolower", .tolower), ("int", .int),
   ("sqrt", .sqrt), ("exp", .exp), ("log", .log), ("sin", .sin), ("cos", .cos), ("atan2", .atan2), ("rand", .rand),
   ("srand", .srand), ("system", .system), ("close", .close), ("fflush", .fflush)]

/-- The signs, longer ones first. -/
def signs : List String :=
  ["&&", "||", "==", "!=", "<=", ">=", ">>", "++", "--", "+=", "-=", "*=", "/=", "%=", "^=", "!~", "\x7b", "\x7d", "(", ")",
   "[", "]", ";", ",", "+", "-", "*", "/", "%", "^", "!", ">", "<", "|", "?", ":", "~", "$", "="]

/-- The token is an operand or ends one: a slash behind it divides. -/
def Token.endsOperand : Token → Bool
  | .name _              => true
  | .number _ _          => true
  | .chars _             => true
  | .pattern _           => true
  | .sign ")"            => true
  | .sign "]"            => true
  | .sign "++"           => true
  | .sign "--"           => true
  | .keyword "getline"   => true
  | .feature .length _   => true
  | _                    => false

/-- Newlines behind the token say nothing. -/
def Token.joinsLines : Token → Bool
  | .sign s     => s ∈ ["\x7b", "\x7d", "&&", "||", ",", ";"]
  | .keyword s  => s ∈ ["do", "else"]
  | .newline    => true
  | _           => false

/-! ## Constants -/

/-- The start of something that has no end, as it is complained about. -/
def runaway (kind : String) (quote : Char) (t : Text) : Token :=
  .bad (text "runaway " ++ kind.toList ++ ' ' :: quote :: (t.takeWhile (· != '\n')).take 10 ++ text " ...")

/-- The character of up to three octal digits, and what follows them. -/
def octalEscape (t : Text) : Char × Text :=
  let digits := (t.take 3).takeWhile isOctal
  (Char.ofNat (ofDigits 8 digits % 256), t.drop digits.length)

/-- Characters up to a quote, with escapes resolved; none if there is no quote in the line. Unknown escapes stay as
    they are. `fuel` bounds the characters. -/
def stringChars? : Nat → Text → Option (Text × Text)
  | 0,        _      => none
  | _ + 1,    []     => none
  | fuel + 1, c :: r =>
    let more (found r : Text) : Option (Text × Text) :=
      (stringChars? fuel r).map fun (t, rest) => (found ++ t, rest)
    if c = '"' then some ([], r)
    else if c = '\n' then none
    else if c ≠ '\\' then more [c] r
    else match r with
      | '"' :: r  => more ['"'] r
      | '\\' :: r => more ['\\'] r
      | 'a' :: r  => more ['\x07'] r
      | 'b' :: r  => more ['\x08'] r
      | 'f' :: r  => more ['\x0c'] r
      | 'n' :: r  => more ['\n'] r
      | 'r' :: r  => more ['\r'] r
      | 't' :: r  => more ['\t'] r
      | 'v' :: r  => more ['\x0b'] r
      | '\n' :: r => more [] r
      | 'x' :: r  =>
        let digits := (r.take 2).takeWhile fun c => (hexValue? c.toLower).isSome
        if digits.isEmpty then more (text "\\x") r
        else more [Char.ofNat (ofDigits 16 (digits.map Char.toLower))] (r.drop digits.length)
      | k :: r    =>
        if isOctal k then let (c, rest) := octalEscape (k :: r); more [c] rest
        else more ['\\', k] r
      | []        => none

/-- The string constant after its quote, and what follows. -/
def stringToken (t : Text) : Token × Text :=
  match stringChars? (t.length + 1) t with
  | some (found, rest) => (.chars found, rest)
  | none               => (runaway "string constant" '"' t, [])

/-- The characters of a regular expression up to its slash; none if there is no slash in the line. Between brackets a
    slash has no meaning. `fuel` bounds the characters. -/
def patternChars? (inBracket : Bool) : Nat → Text → Option (Text × Text)
  | 0,        _      => none
  | _ + 1,    []     => none
  | fuel + 1, c :: r =>
    let more (inBracket : Bool) (found r : Text) : Option (Text × Text) :=
      (patternChars? inBracket fuel r).map fun (t, rest) => (found ++ t, rest)
    if c = '\n' then none
    else if c = '/' && !inBracket then some ([], r)
    else match c, r with
      | '\\', '/' :: r  => more inBracket ['/'] r
      | '\\', '\n' :: r => more inBracket [] r
      | '\\', k :: r    => more inBracket ['\\', k] r
      | '[', r          =>
        if inBracket then more true ['['] r
        else match r with
          | ']' :: r        => more true (text "[]") r
          | '^' :: ']' :: r => more true (text "[^]") r
          | r               => more true ['['] r
      | ']', r          => more false [']'] r
      | c,    r         => more inBracket [c] r

/-- The regular expression after its slash, and what follows. -/
def patternToken (t : Text) : Token × Text :=
  match patternChars? false (t.length + 1) t with
  | some (found, rest) => (.pattern found, rest)
  | none               => (runaway "regular expression" '/' t, [])

/-- The number at the start of a text, and what follows. -/
def numberToken (t : Text) : Token × Text :=
  let (whole, fraction, r) := digitParts isAsciiDigit t
  let (e, rest) := exponentPart 'e' r
  let (n, d) := powerOf 10 e
  let spelled := t.take (t.length - rest.length)
  (.number (Amount.finite false (ofDigits 10 (whole ++ fraction) * n) (Nat.pow 10 fraction.length * d)).toFloat spelled, rest)

/-- The name at the start of a text as a token, and what follows. -/
def nameToken (t : Text) : Token × Text :=
  let name := t.takeWhile fun c => c.isAlphanum || c == '_'
  let rest := t.drop name.length
  let word := String.ofList name
  (if word ∈ keywords then .keyword word
    else match features.lookup word with
      | some f => .feature f name
      | none   => if rest.head? = some '(' then .callee name else .name name, rest)

/-! ## Reading -/

/-- The token at the start of a text, and what follows; `previous` is the one before. -/
def firstToken (previous : Token) (t : Text) : Token × Text :=
  match t with
  | []      => (.finish, [])
  | c :: r  =>
    if c = '\n' then (.newline, r)
    else if c = '"' then stringToken r
    else if isAsciiDigit c || (c == '.' && r.head?.any isAsciiDigit) then numberToken t
    else if c.isAlpha || c == '_' then nameToken t
    else if c = '/' && !previous.endsOperand then patternToken r
    else match signs.find? fun s => startsWith s.toList t with
      | some s => (.sign s, t.drop s.length)
      | none   => (.bad (text "unexpected character '" ++ c :: text "'"), r)

/-- A text without what stands between tokens: blanks, comments, and newlines behind a backslash. Also how many lines it
    goes through. `fuel` bounds the steps. -/
def skipBetween (joins : Bool) : Nat → Text → Nat → Text × Nat
  | 0,        t, line => (t, line)
  | fuel + 1, t, line =>
    match t with
    | '\\' :: '\n' :: r => skipBetween joins fuel r (line + 1)
    | c :: r            =>
      if c = ' ' ∨ c = '\t' ∨ c = '\r' then skipBetween joins fuel r line
      else if c = '#' then skipBetween joins fuel (r.dropWhile (· != '\n')) line
      else if c = '\n' && joins then skipBetween joins fuel r (line + 1)
      else (t, line)
    | []                => ([], line)

/-- The tokens of a program from a line on. `fuel` bounds their number. -/
def tokensFrom : Nat → Token → Text → Nat → Nat → Nat → List Lexeme
  | 0,        _,        _, _,    _,      _      => []
  | fuel + 1, previous, t, line, parens, braces =>
    let (t, line) := skipBetween previous.joinsLines (t.length + 1) t line
    let (token, rest) := firstToken previous t
    match token with
    | .finish   => [⟨.finish, line, parens, braces⟩]
    | .bad _    => [⟨token, line, parens, braces⟩]
    | .newline  => ⟨token, line, parens, braces⟩ :: tokensFrom fuel token rest (line + 1) 0 braces
    | .sign "(" => ⟨token, line, parens + 1, braces⟩ :: tokensFrom fuel token rest line (parens + 1) braces
    | .sign ")" =>
      if parens = 0 then [⟨.bad (text "extra ')'"), line, parens, braces⟩]
      else ⟨token, line, parens - 1, braces⟩ :: tokensFrom fuel token rest line (parens - 1) braces
    | .sign "\x7b" => ⟨token, line, parens, braces + 1⟩ :: tokensFrom fuel token rest line parens (braces + 1)
    | .sign "\x7d" =>
      if braces = 0 then [⟨.bad (text "extra '\x7d'"), line, parens, braces⟩]
      else ⟨token, line, parens, braces - 1⟩ :: tokensFrom fuel token rest line 0 (braces - 1)
    | _         => ⟨token, line, parens, braces⟩ :: tokensFrom fuel token rest line parens braces

/-- The tokens of a program. -/
def tokensOf (source : Text) : List Lexeme :=
  let source := if source.getLast? = some '\n' then source else source ++ ['\n']
  tokensFrom (source.length + 2) .newline source 1 0 0

end JavaMend.Host.Records
