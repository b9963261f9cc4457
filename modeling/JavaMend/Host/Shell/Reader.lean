import JavaMend.Host.Shell.Script

/-!
# `Host.Shell.Reader` — reading command scripts

A script is read one command at a time, since a command may change how the next ones are read. Tokens are read on
demand; whether a word is taken as a keyword depends on where it stands. The texts that redirections ask for follow the
line of the command.

## Contents
- **Tokens.** `Token` with its wording, `Reader`, `Read`.
- **Characters.** `peek`, `next`, `skipComment`.
- **Words.** `Zone`, `Setting`, `readParts` and what stands in words.
- **Commands.** `readToken`, `readList`, `readCommand`, `readSimple`; `Reader.command`.
-/

namespace JavaMend.Host.Shell

open JavaMend Text

/-! ## Tokens -/

/-- What a script is read as. -/
inductive Token where
  | finish
  | newline
  | redirection
  | word
  | semicolon
  | background
  | both
  | either
  | pipe
  | opening
  | closing
  | branchEnd
  | keyword (name : String)
deriving DecidableEq, Repr, Inhabited

/-- The wording of a token. -/
def Token.shown : Token → Text
  | .finish      => text "end of file"
  | .newline     => text "newline"
  | .redirection => text "redirection"
  | .word        => text "word"
  | .semicolon   => text "\";\""
  | .background  => text "\"&\""
  | .both        => text "\"&&\""
  | .either      => text "\"||\""
  | .pipe        => text "\"|\""
  | .opening     => text "\"(\""
  | .closing     => text "\")\""
  | .branchEnd   => text "\";;\""
  | .keyword k   => '"' :: k.toList ++ ['"']

/-- Words that are not commands where a command starts. -/
def keywords : List String :=
  ["!", "case", "do", "done", "elif", "else", "esac", "fi", "for", "if", "in", "then", "until", "while", "\x7b",
   "\x7d"]

/-- The token ends a list of commands. -/
def Token.endsList : Token → Bool
  | .finish | .closing | .branchEnd => true
  | .keyword k                      => k ∈ ["do", "done", "elif", "else", "esac", "fi", "then", "\x7d"]
  | _                               => false

/-- A text that a redirection asks for and that follows later. -/
structure Document where
  id : Nat
  /-- The line that ends it. -/
  ending : Text
  /-- Tabulators at the starts of lines are left out. -/
  strips : Bool
  /-- It is expanded. -/
  expands : Bool

/-- The redirection that a token stands for. -/
inductive RedirectKind where
  | file (use : FileUse)
  | copy
  | document (strips : Bool)

/-- A reader in a script. -/
structure Reader where
  rest : Text
  line : Nat
  /-- The last token; it is read once more if it was held back. -/
  token : Token
  isHeld : Bool
  /-- The last word. -/
  word : Word
  /-- The last redirection with its channel. -/
  redirect : Nat × RedirectKind
  /-- Texts that follow the line. -/
  awaited : List Document
  /-- Texts that have been read. -/
  documents : List (Nat × Word)
  nextDocument : Nat
  /-- Words with the texts that stand for them. -/
  aliases : List (Text × Text)
  /-- Aliases whose text is being read, with what is left after that text. -/
  active : List (Text × Nat)

/-- A reader at the start of a script. -/
def Reader.start (source : Text) (nextDocument : Nat) : Reader :=
  ⟨source, 1, .newline, false, [], (0, .copy), [], [], nextDocument, [], []⟩

/-- Steps of reading; a fault is what is complained about. -/
abbrev Read := ExceptT Text (StateM Reader)

/-- The reader found something that it did not expect. -/
def unexpected {α : Type} (wanted : Option Token) : Read α := do
  let r ← get
  throw (r.token.shown ++ text " unexpected" ++
    match wanted with
    | some t => text " (expecting " ++ t.shown ++ [')']
    | none   => [])

/-! ## Characters -/

/-- The text after the ends of lines that a backslash takes away, and how many these are. -/
def skipContinued : Text → Nat × Text
  | '\\' :: '\n' :: r => let (n, rest) := skipContinued r; (n + 1, rest)
  | t                 => (0, t)

/-- The next character, which stays. -/
def peek : Read (Option Char) := do
  let r ← get
  let (n, rest) := skipContinued r.rest
  set { r with rest := rest, line := r.line + n }
  return rest.head?

/-- The next character, which is taken. -/
def next : Read (Option Char) := do
  let c ← peek
  modify fun r => { r with rest := r.rest.tail }
  return c

/-- Take the next character if it is this one. -/
def nextIs (c : Char) : Read Bool := do
  if (← peek) = some c then
    modify fun r => { r with rest := r.rest.tail }
    return true
  return false

/-- A line has ended. -/
def countLine : Read Unit := modify fun r => { r with line := r.line + 1 }

/-- Take characters as long as they are kept. -/
def nextWhile (keep : Char → Bool) : Nat → Read Text
  | 0        => return []
  | fuel + 1 => do
    match ← peek with
    | some c =>
      if keep c then
        modify fun r => { r with rest := r.rest.tail }
        return c :: (← nextWhile keep fuel)
      else return []
    | none   => return []

/-- A token that is made of one sign, or of two that are the same. -/
def oneOrTwo (c : Char) (one two : Token) : Read Token := do return if ← nextIs c then two else one

/-- Hold the last token back, to be read once more. -/
def holdToken : Read Unit := modify fun r => { r with isHeld := true }

/-! ## Words -/

/-- How characters are read. -/
inductive Zone where
  /-- Outside of quotes. -/
  | bare
  /-- Between double quotes. -/
  | quotes
  /-- In arithmetic. -/
  | number
deriving DecidableEq, Repr

/-- Where parts of a word are read. -/
structure Setting where
  zone : Zone
  /-- In braces; the parts end with the brace. -/
  inBraces : Bool
  /-- The text around it ends with this line, of which tabulators may be left out. -/
  document : Option (Text × Bool)
  /-- The word ends a text, and nothing is put in its place. -/
  isEnding : Bool

/-- A character that ends a word outside of quotes. -/
def endsWord (c : Char) : Bool := c ∈ text " \t\n<>();&|"

/-- Names of parameters that are single signs. -/
def isSpecial (c : Char) : Bool := c.isDigit || c ∈ text "@*#?$!-"

/-- The mark that encloses an old form of output. -/
def grave : Char := Char.ofNat 0x60

/-- The line at which a text ends begins here: what follows it. -/
def documentEnd? (ending : Text) (strips : Bool) (t : Text) : Option Text :=
  match dropPrefix? ending (if strips then t.dropWhile (· == '\t') else t) with
  | some []          => some []
  | some ('\n' :: r) => some r
  | _                => none

/-- A line starts: whether a text that stands around it ends here. -/
def atDocumentEnd (s : Setting) : Read Bool := do
  match s.document with
  | none                  => return false
  | some (ending, strips) => do
    let r ← get
    match documentEnd? ending strips r.rest with
    | some rest => do
      set { r with rest := rest, line := r.line + (if rest.isEmpty && r.rest.getLast? != some '\n' then 0 else 1) }
      return true
    | none      => do
      if strips then set { r with rest := r.rest.dropWhile (· == '\t') }
      return false

/-- The characters up to a single quote, quoted. -/
def readSingle : Read Word := do
  let r ← get
  let inner := r.rest.takeWhile (· != '\'')
  let line := r.line + inner.countP (· == '\n')
  match r.rest.drop inner.length with
  | []        => do
    set { r with rest := [], line := line }
    throw (text "Unterminated quoted string")
  | _ :: rest => do
    set { r with rest := rest, line := line }
    return inner.map fun c => .char c true

/-- The character after a backslash. -/
def readBackslash (s : Setting) : Read Word := do
  let r ← get
  match r.rest with
  | []        => return [.char '\\' true]
  | c :: rest => do
    set { r with rest := rest, line := if c = '\n' then r.line + 1 else r.line }
    let isKept : Bool := s.zone != .bare && c != '\\' && c != grave && c != '$' &&
      (c != '"' || (s.document.isSome && !s.inBraces)) && (c != '\x7d' || !s.inBraces)
    return if isKept then [.char '\\' true, .char c true] else [.char c true]

/-- The source of an old form of output, up to its end. -/
def takeGrave (inQuotes : Bool) : Text → Option (Text × Text)
  | []     => none
  | c :: r =>
    if c = grave then some ([], r)
    else if c = '\\' then
      match r with
      | []        => none
      | '\n' :: r => takeGrave inQuotes r
      | d :: r    =>
        (takeGrave inQuotes r).map fun (t, rest) =>
          (if d = '\\' || d = grave || d = '$' || (inQuotes && d = '"') then (d :: t, rest) else ('\\' :: d :: t, rest))
    else (takeGrave inQuotes r).map fun (t, rest) => (c :: t, rest)

/-- The change that is named after a parameter, and whether an empty value is missing too. -/
def readChange : Read (Change × Bool) := do
  let named (c : Option Char) : Option Change := match c with
    | some '-' => some .orElse
    | some '+' => some .ifSet
    | some '?' => some .orFail
    | some '=' => some .orAssign
    | some '\x7d' => some .keep
    | _        => none
  let c ← next
  match c with
  | some ':' => do
    match named (← next) with
    | some change => return (change, true)
    | none        => return (.unknown, true)
  | some '%' => return (.cut true (← nextIs '%'), false)
  | some '#' => return (.cut false (← nextIs '#'), false)
  | c        => return ((named c).getD .unknown, false)

/-- The name of a parameter in braces: with what is made of it, if that is known by now. -/
def readBracedName : Read (Option Text × Option Change) := do
  let fuel := (← get).rest.length + 1
  let named (c : Char) : Read Text := do
    if isNameStart c then nextWhile isNameChar fuel else nextWhile Char.isDigit fuel
  match ← peek with
  | none   => return (none, some .unknown)
  | some c =>
    if isNameStart c || c.isDigit then return (some (← named c), none)
    else if c = '\x7d' then return (none, some .unknown)
    else do
      discard next
      if c = '#' then
        match ← peek with
        | none   => return (some ['#'], none)
        | some d =>
          if isNameStart d || d.isDigit then do
            let name ← named d
            return (some name, some (if (← peek) = some '\x7d' then .length else .unknown))
          else do
            discard next
            let after ← peek
            if d = '\x7d' || after ≠ some '\x7d' then do
              modify fun r => { r with rest := d :: r.rest }
              return (some ['#'], none)
            else if isSpecial d then return (some [d], some .length)
            else return (none, some .unknown)
      else if isSpecial c then return (some [c], none)
      else return (none, some .unknown)

/-- Read an inner script on its own, with a reader that starts at its beginning. -/
def onSource (source : Text) (read : Read Script) : Read Script := do
  let outer ← get
  set { outer with rest := source, line := 1, isHeld := false, awaited := [], active := [] }
  let body ← read
  modify fun r =>
    { r with rest := outer.rest, line := outer.line, isHeld := false, awaited := outer.awaited, active := outer.active }
  return body

/-- The end of a word came too early. -/
def unfinished {α : Type} (s : Setting) : Read α :=
  match s.zone with
  | .number => throw (text "Missing '))'")
  | .quotes => throw (if s.document.isNone then text "Unterminated quoted string" else text "Missing '\x7d'")
  | .bare   => throw (text "Missing '\x7d'")

/-! ## Commands -/

/-- How a list of commands starts. -/
inductive ListStart where
  /-- It ends with a line. -/
  | line
  /-- It has at least one command. -/
  | commands
  /-- It may be empty. -/
  | open
deriving DecidableEq

/-- What is special about the next token. -/
structure Expecting where
  /-- Ends of lines are skipped. -/
  skipsLines : Bool
  /-- A word may be a keyword. -/
  keywords : Bool
  /-- A word may be an alias. -/
  aliases : Bool

/-- Nothing is special. -/
def anyToken : Expecting := ⟨false, false, false⟩

/-- A command may start. -/
def commandToken : Expecting := ⟨false, true, true⟩

/-- A command may start, on a later line too. -/
def laterToken : Expecting := ⟨true, true, true⟩

/-- The parts of one script after another. -/
def Script.andThen : Option Script → Script → Script
  | none,   b => b
  | some a, b => .seq a b

/-- Names of commands that belong to the language, so that no function may have them. -/
def specialCommands : List String :=
  [".", ":", "break", "continue", "eval", "exec", "exit", "export", "local", "readonly", "return", "set", "shift", "times",
   "trap", "unset"]

/-- Put the text of an alias before what is left to read. -/
def pushAlias (name value : Text) : Read Unit :=
  modify fun r => { r with active := (name, r.rest.length) :: r.active, rest := value ++ r.rest }

/-- The text that stands for a word, unless it is being read now. -/
def aliasFor? (word : Text) : Read (Option Text) := do
  let r ← get
  let active := r.active.filter fun a => Nat.blt a.2 r.rest.length
  set { r with active := active }
  return if active.any fun a => a.1 == word then none else r.aliases.lookup word

mutual

/-- The parts of a word up to its end. `inner` holds within quotes that stand within quotes, `parens` counts the
    parentheses that are open in arithmetic, and `found` holds the parts so far, the latest first. `fuel` bounds the
    steps. -/
def readParts : Nat → Setting → (inner : Bool) → (parens : Nat) → Word → Read Word
  | 0,        _, _,     _,      _     => throw (text "Missing '\x7d'")
  | fuel + 1, s, inner, parens, found => do
    let more (ps : Word) : Read Word := readParts fuel s inner parens (ps.reverse ++ found)
    let isQuoted := s.zone == .quotes
    match ← peek with
    | none   =>
      if (s.zone = .bare && !s.inBraces) || (s.document.isSome && s.zone = .quotes && !s.inBraces) then
        return found.reverse
      unfinished s
    | some c =>
      if s.zone = .bare && !s.inBraces && endsWord c then return found.reverse
      discard next
      if c = '\n' then do
        countLine
        if ← atDocumentEnd s then do
          if s.zone = .quotes && !s.inBraces then return (.char c isQuoted :: found).reverse
          unfinished s
        else more [.char c isQuoted]
      else if c = '\\' then more (← readBackslash s)
      else if c = grave then
        if s.isEnding then more [.char c isQuoted] else more [← readGrave fuel s]
      else if c = '$' then more [← readDollar fuel s]
      else if c = '\x7d' && s.inBraces && !inner then return found.reverse
      else
        let mark : Word := if s.document.isSome then [] else [.mark]
        match s.zone, c with
        | .bare,   '\'' => more (mark ++ (← readSingle) ++ mark)
        | .bare,   '"'  => do
          let quoted ← readParts fuel { s with zone := .quotes, inBraces := false, document := none } false 0 []
          more (mark ++ quoted ++ mark)
        | .quotes, '"'  =>
          if s.inBraces then readParts fuel s (!inner) parens (mark ++ found)
          else if s.document.isSome then more [.char c true]
          else return found.reverse
        | .number, '('  => readParts fuel s inner (parens + 1) (.char c false :: found)
        | .number, ')'  =>
          if 0 < parens then readParts fuel s inner (parens - 1) (.char c false :: found)
          else if ← nextIs ')' then return found.reverse
          else more [.char c false]
        | _,       _    => more [.char c isQuoted]

/-- What is put in after an opening grave accent. -/
def readGrave : Nat → Setting → Read Part
  | 0,        _ => throw (text "EOF in backquote substitution")
  | fuel + 1, s => do
    let r ← get
    match takeGrave (s.zone == .quotes) r.rest with
    | none                => throw (text "EOF in backquote substitution")
    | some (source, rest) => do
      let taken := r.rest.take (r.rest.length - rest.length)
      set { r with rest := rest, line := r.line + taken.countP (· == '\n') }
      let body ← onSource source (do return (← readList fuel .open).getD .nothing)
      return .output body (s.zone == .quotes)

/-- What is put in after a dollar sign. -/
def readDollar : Nat → Setting → Read Part
  | 0,        _ => throw (text "Missing '\x7d'")
  | fuel + 1, s => do
    let isQuoted := s.zone == .quotes
    let after ← peek
    match if s.isEnding then none else after with
    | none      => return .char '$' isQuoted
    | some '('  => do
      discard next
      if ← nextIs '(' then
        return .number (← readParts fuel { s with zone := .number, inBraces := false } false 0 []) isQuoted
      let outer ← get
      set { outer with isHeld := false, awaited := [] }
      let body ← readList fuel .open
      if (← readToken fuel anyToken) ≠ .closing then unexpected (some .closing)
      readDocuments fuel
      modify fun r => { r with isHeld := false, awaited := outer.awaited }
      return .output (body.getD .nothing) isQuoted
    | some '\x7b' => do
      discard next
      let (name, known) ← readBracedName
      let (change, orEmpty) ← match known with
        | some c => pure (c, false)
        | none   => readChange
      if change = .keep && !orEmpty then return .parameter (name.getD []) .keep false [] isQuoted
      let zone : Zone := match change with
        | .cut _ _ => .bare
        | _        => if s.zone = .number then .quotes else s.zone
      let word ← readParts fuel { s with zone := zone, inBraces := true } false 0 []
      return .parameter (name.getD []) (if name.isNone then .unknown else change) orEmpty word isQuoted
    | some c    =>
      if isNameStart c then do
        return .parameter (← nextWhile isNameChar ((← get).rest.length + 1)) .keep false [] isQuoted
      else if isSpecial c then do
        discard next
        return .parameter [c] .keep false [] isQuoted
      else return .char '$' isQuoted

/-- Read the texts that follow the line. -/
def readDocuments : Nat → Read Unit
  | 0        => return
  | fuel + 1 => do
    match (← get).awaited with
    | []      => return
    | d :: ds => do
      modify fun r => { r with awaited := ds }
      let s : Setting := ⟨.quotes, false, some (d.ending, d.strips), false⟩
      let found ←
        if ← atDocumentEnd s then pure []
        else if d.expands then readParts fuel s false 0 []
        else readPlainLines fuel s
      modify fun r => { r with documents := (d.id, found) :: r.documents }
      readDocuments fuel

/-- Read lines that stand for themselves up to the end of a text. -/
def readPlainLines : Nat → Setting → Read Word
  | 0,        _ => return []
  | fuel + 1, s => do
    let r ← get
    let line := r.rest.takeWhile (· != '\n')
    let shown : Word := line.map fun c => .char c true
    match r.rest.drop line.length with
    | []        => do
      set { r with rest := [] }
      return shown
    | _ :: rest => do
      set { r with rest := rest, line := r.line + 1 }
      if ← atDocumentEnd s then return shown ++ [.char '\n' true]
      return shown ++ .char '\n' true :: (← readPlainLines fuel s)

/-- Take the next token as it is. -/
def takeToken : Nat → (isEnding : Bool) → Read Token
  | 0,        _        => return .finish
  | fuel + 1, isEnding => do
    let r ← get
    if r.isHeld then
      set { r with isHeld := false }
      return r.token
    match ← peek with
    | none      => return .finish
    | some ' '  => do discard next; takeToken fuel isEnding
    | some '\t' => do discard next; takeToken fuel isEnding
    | some '#'  => do
      modify fun r => { r with rest := r.rest.dropWhile (· != '\n') }
      takeToken fuel isEnding
    | some '\n' => do
      discard next
      countLine
      return .newline
    | some '&'  => do discard next; oneOrTwo '&' .background .both
    | some '|'  => do discard next; oneOrTwo '|' .pipe .either
    | some ';'  => do discard next; oneOrTwo ';' .semicolon .branchEnd
    | some '('  => do discard next; return .opening
    | some ')'  => do discard next; return .closing
    | some _    => do
      let word ← readParts fuel ⟨.bare, false, none, isEnding⟩ false 0 []
      let channel? : Option (Option Nat) := match word with
        | []               => some none
        | [.char c false]  => if c.isDigit then some (some (digitValue c)) else none
        | _                => none
      match channel?, ← peek with
      | some channel, some '>' => do
        discard next
        let kind : RedirectKind ←
          if ← nextIs '>' then pure (.file .append)
          else if ← nextIs '|' then pure (.file .overwrite)
          else if ← nextIs '&' then pure .copy
          else pure (.file .write)
        modify fun r => { r with redirect := (channel.getD 1, kind) }
        return .redirection
      | some channel, some '<' => do
        discard next
        let kind : RedirectKind ←
          if ← nextIs '<' then pure (.document (← nextIs '-'))
          else if ← nextIs '&' then pure .copy
          else if ← nextIs '>' then pure (.file .readWrite)
          else pure (.file .read)
        modify fun r => { r with redirect := (channel.getD 0, kind) }
        return .redirection
      | _,            _        => do
        modify fun r => { r with word := word }
        return .word

/-- Take a token; ends of lines before it are skipped, with the texts that follow them. -/
def takeLaterToken : Nat → (isEnding : Bool) → Read Token
  | 0,        _        => return .finish
  | fuel + 1, isEnding => do
    let t ← takeToken fuel isEnding
    if t = .newline then
      readDocuments fuel
      takeLaterToken fuel isEnding
    else return t

/-- Read the next token. -/
def readToken : Nat → Expecting → Read Token
  | 0,        _ => return .finish
  | fuel + 1, e => do
    let t ← if e.skipsLines then takeLaterToken fuel false else takeToken fuel false
    let bare := (← get).word.bare?
    let keep (t : Token) : Read Token := do
      modify fun r => { r with token := t }
      return t
    match t, bare with
    | .word, some w =>
      match if e.keywords then keywords.find? fun k => k.toList == w else none with
      | some k => keep (.keyword k)
      | none   => do
        if !e.aliases then return ← keep .word
        match ← aliasFor? w with
        | some value => do
          pushAlias w value
          readToken fuel e
        | none       => keep .word
    | t,     _      => keep t

/-- Read the word that a redirection names. -/
def readTarget : Nat → Read Redirect
  | 0        => throw []
  | fuel + 1 => do
    let (channel, kind) := (← get).redirect
    let isEnding := match kind with
      | .document _ => true
      | _           => false
    let t ← takeToken fuel isEnding
    modify fun r => { r with token := t }
    if t ≠ .word then unexpected none
    let word := (← get).word
    match kind with
    | .file use        => return .file channel use word
    | .copy            => return .copy channel word
    | .document strips => do
      let r ← get
      let id := r.nextDocument
      let d : Document := ⟨id, Word.letters word, strips, !Word.hasQuotes word⟩
      set { r with awaited := r.awaited ++ [d], nextDocument := id + 1 }
      return .document channel id

/-- Read the redirections that follow a command. -/
def readRedirects : Nat → Read (List Redirect)
  | 0        => return []
  | fuel + 1 => do
    if (← readToken fuel commandToken) = .redirection then
      let r ← readTarget fuel
      return r :: (← readRedirects fuel)
    holdToken
    return []

/-- Read commands up to where they end. -/
def readList : Nat → ListStart → Read (Option Script)
  | 0,        _     => return none
  | fuel + 1, start => readMore fuel start (start = .open) none

/-- Read the commands that follow others. They may end here if `mayEnd` holds. -/
def readMore : Nat → ListStart → (mayEnd : Bool) → Option Script → Read (Option Script)
  | 0,        _,     _,      found => return found
  | fuel + 1, start, mayEnd, found => do
    let isLine := start = .line
    let finish : Read (Option Script) := do
      readDocuments fuel
      modify fun r => { r with token := .finish, isHeld := true }
      return found
    match ← readToken fuel (if isLine then commandToken else laterToken) with
    | .newline => do
      readDocuments fuel
      return found
    | .finish  => finish
    | t        => do
      holdToken
      if mayEnd && t.endsList then return found
      let command ← readAndOr fuel
      let t ← readToken fuel anyToken
      let command := if t = .background then
          match command with
          | .redirected line body redirects => .background line body redirects
          | body                            => .background 0 body []
        else command
      let found := some (Script.andThen found command)
      match t with
      | .finish                  => do
        readDocuments fuel
        modify fun r => { r with token := .finish, isHeld := true }
        return found
      | .newline                 => do
        holdToken
        readMore fuel start (!isLine) found
      | .background | .semicolon => readMore fuel start (!isLine) found
      | _                        => do
        if isLine then unexpected none
        holdToken
        return found

/-- Read pipes that are joined by conditions. -/
def readAndOr : Nat → Read Script
  | 0        => return .nothing
  | fuel + 1 => do readAndOrMore fuel (← readPipe fuel anyToken)

/-- Read the pipes that are joined to one. -/
def readAndOrMore : Nat → Script → Read Script
  | 0,        found => return found
  | fuel + 1, found => do
    match ← readToken fuel anyToken with
    | .both   => do readAndOrMore fuel (.both found (← readPipe fuel laterToken))
    | .either => do readAndOrMore fuel (.either found (← readPipe fuel laterToken))
    | _       => do
      holdToken
      return found

/-- Read commands that are joined by pipes. -/
def readPipe : Nat → Expecting → Read Script
  | 0,        _ => return .nothing
  | fuel + 1, e => do
    let isNegated := (← readToken fuel e) = .keyword "!"
    if !isNegated then holdToken
    let first ← readCommand fuel (if isNegated then commandToken else anyToken)
    let rest ← readPipeMore fuel
    let all := if rest.isEmpty then first else .pipe (first :: rest)
    return if isNegated then .negated all else all

/-- Read the commands after a pipe sign. -/
def readPipeMore : Nat → Read (List Script)
  | 0        => return []
  | fuel + 1 => do
    if (← readToken fuel anyToken) = .pipe then
      let c ← readCommand fuel laterToken
      return c :: (← readPipeMore fuel)
    holdToken
    return []

/-- Read a command. -/
def readCommand : Nat → Expecting → Read Script
  | 0,        _ => return .nothing
  | fuel + 1, e => do
    let line := (← get).line
    match ← readToken fuel e with
    | .word        => do
      holdToken
      readSimple fuel (← get).line true [] [] []
    | .redirection => do
      holdToken
      readSimple fuel (← get).line true [] [] []
    | t            => do
      let body ← readCompound fuel line t
      let redirects ← readRedirects fuel
      match body with
      | .subshell line inner _ => if t = .opening then return .subshell line inner redirects
      | _                      => pure ()
      return if redirects.isEmpty then body else .redirected line body redirects

/-- Read a command that holds others, after its first token. -/
def readCompound : Nat → Nat → Token → Read Script
  | 0,        _,    _ => return .nothing
  | fuel + 1, line, t => do
    let body : Read Script := do return (← readList fuel .commands).getD .nothing
    let require (t : Token) : Read Unit := do
      if (← readToken fuel anyToken) ≠ t then unexpected (some t)
    let loop (untilTrue : Bool) : Read Script := do
      let condition ← body
      require (.keyword "do")
      let inner ← body
      require (.keyword "done")
      return .loop untilTrue condition inner
    match t with
    | .keyword "if"    => readChoice fuel
    | .keyword "while" => loop false
    | .keyword "until" => loop true
    | .keyword "for"   => readEach fuel line
    | .keyword "case"  => do
      if (← readToken fuel anyToken) ≠ .word then unexpected (some .word)
      let word := (← get).word
      if (← readToken fuel laterToken) ≠ .keyword "in" then unexpected (some (.keyword "in"))
      return .select line word (← readBranches fuel)
    | .opening         => do
      let inner ← body
      require .closing
      return .subshell line inner []
    | .keyword "\x7b"  => do
      let inner ← body
      require (.keyword "\x7d")
      return inner
    | _                => unexpected none

/-- Read a choice after its first word. -/
def readChoice : Nat → Read Script
  | 0        => return .nothing
  | fuel + 1 => do
    let condition ← readList fuel .commands
    if (← readToken fuel anyToken) ≠ .keyword "then" then unexpected (some (.keyword "then"))
    let yes ← readList fuel .commands
    let no ← match ← readToken fuel anyToken with
      | .keyword "elif" => readChoice fuel
      | .keyword "else" => do
        let no ← readList fuel .commands
        if (← readToken fuel anyToken) ≠ .keyword "fi" then unexpected (some (.keyword "fi"))
        pure (no.getD .nothing)
      | .keyword "fi"   => pure .nothing
      | _               => unexpected (some (.keyword "fi"))
    return .choose (condition.getD .nothing) (yes.getD .nothing) no

/-- Read a loop over words after its first word. -/
def readEach : Nat → Nat → Read Script
  | 0,        _    => return .nothing
  | fuel + 1, line => do
    let t ← readToken fuel anyToken
    let name := ((← get).word.bare?).getD []
    if t ≠ .word || !isName name then throw (text "Bad for loop variable")
    let words ← if (← readToken fuel laterToken) = .keyword "in" then do
        let ws ← readWords fuel
        let t := (← get).token
        if t ≠ .newline && t ≠ .semicolon then unexpected none
        pure ws
      else do
        if (← get).token ≠ .semicolon then holdToken
        pure [[.mark, .parameter ['@'] .keep false [] true, .mark]]
    if (← readToken fuel laterToken) ≠ .keyword "do" then unexpected (some (.keyword "do"))
    let body ← readList fuel .commands
    if (← readToken fuel anyToken) ≠ .keyword "done" then unexpected (some (.keyword "done"))
    return .each line name words (body.getD .nothing)

/-- Read words up to another token. -/
def readWords : Nat → Read (List Word)
  | 0        => return []
  | fuel + 1 => do
    if (← readToken fuel anyToken) = .word then
      let w := (← get).word
      return w :: (← readWords fuel)
    return []

/-- Read patterns up to the parenthesis that ends them. -/
def readPatterns : Nat → Read (List Word)
  | 0        => return []
  | fuel + 1 => do
    let w := (← get).word
    if (← readToken fuel anyToken) = .pipe then
      discard (readToken fuel anyToken)
      return w :: (← readPatterns fuel)
    return [w]

/-- Read the branches of a selection up to its last word. -/
def readBranches : Nat → Read (List Branch)
  | 0        => return []
  | fuel + 1 => do
    let t ← readToken fuel ⟨true, true, false⟩
    if t = .keyword "esac" then return []
    if t = .opening then discard (readToken fuel anyToken)
    let patterns ← readPatterns fuel
    if (← get).token ≠ .closing then unexpected (some .closing)
    let body ← readList fuel .open
    let branch := Branch.mk patterns (body.getD .nothing)
    let t ← readToken fuel ⟨true, true, false⟩
    if t = .keyword "esac" then return [branch]
    if t ≠ .branchEnd then unexpected (some .branchEnd)
    return branch :: (← readBranches fuel)

/-- Read a simple command or the definition of a function; what has been read so far stands the latest first. -/
def readSimple : Nat → Nat → (mayAssign : Bool) → List (Text × Word) → List Word → List Redirect → Read Script
  | 0,        _,    _,         _,        _,     _         => return .nothing
  | fuel + 1, line, mayAssign, assigned, words, redirects => do
    let done : Read Script := do
      holdToken
      return .simple line assigned.reverse words.reverse redirects.reverse
    match ← readToken fuel ⟨false, false, mayAssign⟩ with
    | .word        => do
      let w := (← get).word
      match if mayAssign then Word.assigned? w else none with
      | some a => readSimple fuel line true (a :: assigned) words redirects
      | none   => readSimple fuel line false assigned (w :: words) redirects
    | .redirection => do
      let r ← readTarget fuel
      readSimple fuel line mayAssign assigned words (r :: redirects)
    | .opening     =>
      match words with
      | [w] => do
        if !assigned.isEmpty || !redirects.isEmpty then return ← done
        if (← readToken fuel anyToken) ≠ .closing then unexpected (some .closing)
        let name := w.bare?.getD []
        if !isName name || specialCommands.any fun s => s.toList == name then throw (text "Bad function name")
        return .define name (← readCommand fuel laterToken)
      | _   => done
    | _            => done

end

/-- How many steps it may take to read a text. -/
def readFuel (t : Text) : Nat := 16 * t.length + 1000

/-- The next command of a script; none at the end of the script. -/
def Reader.command (r : Reader) : Except Text (Option Script) × Reader :=
  let step : Read (Option Script) := do
    let command ← readList (readFuel r.rest) .line
    let r ← get
    return if command.isNone && r.isHeld && r.token = .finish then none else some (command.getD .nothing)
  Id.run (StateT.run (ExceptT.run step) { r with isHeld := r.isHeld && r.token = .finish })

/-- The script has been read to its end. -/
def Reader.isFinished (r : Reader) : Bool := r.isHeld && r.token = .finish

end JavaMend.Host.Shell
