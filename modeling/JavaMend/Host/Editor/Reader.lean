import JavaMend.Host.Editor.Script
import JavaMend.Host.Number.Amount
import JavaMend.Host.Pattern.Reader
import JavaMend.Host.Tool

/-!
# `Host.Editor.Reader` — how scripts for editing are spelled

A script comes in parts: arguments and files. A text or a block that one part begins may end in a later one. A fault is
reported with how far its part was read.

## Contents
- **Faults.** `ScriptFault` with its messages, `Refusal`.
- **Reading.** `Reading`, `refuse`, `take?`, `readNumber`, `endStep`.
- **Escapes.** `unescape`, `bareText`.
- **Patterns and replacements.** `readDelimited`, `readPattern`, `readPieces`.
- **Steps.** `readSpot?`, `readScope`, `readSubstitution`, `readDeed`.
- **Scripts.** `Part`, `Draft`, `Draft.addPart`, `Draft.finish`.
-/

namespace JavaMend.Host.Editor

open JavaMend Text

/-! ## Faults -/

/-- Why a script is refused. -/
inductive ScriptFault where
  | manyBangs
  | badComma
  | badFirst
  | openBlock
  | notInBlock
  | extraChars
  | noText
  | scopedEnd
  | scopedLabel
  | scopedComment
  | noStep
  | oneLineOnly
  | openPattern
  | openSubstitution
  | openCharacters
  | unknownFlag
  | manyPrints
  | manyAlls
  | manyNumbers
  | zeroNumber
  | unequalCharacters
  | tooOld
  | lineZero
  | unknownStep (c : Char)
  | noLabel
  | escapedTwice
  | noFile
  | noPattern
  | flagsWithoutPattern
  | noGroup (n : Nat)
  | badPattern (f : ReFault)

/-- The wording of a fault. -/
def ScriptFault.message : ScriptFault → Text
  | .manyBangs           => text "multiple " ++ ticked ['!'] ++ ['s']
  | .badComma            => text "unexpected " ++ ticked [',']
  | .badFirst            => text "invalid usage of +N or ~N as first address"
  | .openBlock           => text "unmatched " ++ ticked ['\x7b']
  | .notInBlock          => text "unexpected " ++ ticked ['\x7d']
  | .extraChars          => text "extra characters after command"
  | .noText              => text "expected \\ after " ++ ticked ['a'] ++ text ", " ++ ticked ['c'] ++ text " or " ++ ticked ['i']
  | .scopedEnd           => ticked ['\x7d'] ++ text " doesn't want any addresses"
  | .scopedLabel         => text ": doesn't want any addresses"
  | .scopedComment       => text "comments don't accept any addresses"
  | .noStep              => text "missing command"
  | .oneLineOnly         => text "command only uses one address"
  | .openPattern         => text "unterminated address regex"
  | .openSubstitution    => text "unterminated " ++ ticked ['s'] ++ text " command"
  | .openCharacters      => text "unterminated " ++ ticked ['y'] ++ text " command"
  | .unknownFlag         => text "unknown option to " ++ ticked ['s']
  | .manyPrints          => text "multiple " ++ ticked ['p'] ++ text " options to " ++ ticked ['s'] ++ text " command"
  | .manyAlls            => text "multiple " ++ ticked ['g'] ++ text " options to " ++ ticked ['s'] ++ text " command"
  | .manyNumbers         => text "multiple number options to " ++ ticked ['s'] ++ text " command"
  | .zeroNumber          => text "number option to " ++ ticked ['s'] ++ text " command may not be zero"
  | .unequalCharacters   => text "strings for " ++ ticked ['y'] ++ text " command are different lengths"
  | .tooOld              => text "expected newer version of sed"
  | .lineZero            => text "invalid usage of line address 0"
  | .unknownStep c       => text "unknown command: " ++ ticked [c]
  | .noLabel             => text "\":\" lacks a label"
  | .escapedTwice        => text "recursive escaping after \\c not allowed"
  | .noFile              => text "missing filename in r/R/w/W commands"
  | .noPattern           => text "no previous regular expression"
  | .flagsWithoutPattern => text "cannot specify modifiers on empty regexp"
  | .noGroup n           => text "invalid reference \\" ++ ofNat n ++ text " on " ++ ticked ['s'] ++ text " command's RHS"
  | .badPattern f        => f.message

/-- A fault, and how many characters of the part were not yet read. -/
structure Refusal where
  fault : ScriptFault
  left : Nat

/-! ## Reading -/

/-- Reading a part of a script: the state is what is left of it. -/
abbrev Reading := StateT Text (Except Refusal)

/-- Refuse the script. -/
def refuse {α : Type} (f : ScriptFault) : Reading α := do throw ⟨f, (← get).length⟩

/-- Take the next character; none at the end. -/
def take? : Reading (Option Char) := do
  match ← get with
  | []     => return none
  | c :: r => do
    set r
    return some c

/-- The next character, which is left there. -/
def next? : Reading (Option Char) := return (← get).head?

/-- Take the characters that have a property. -/
def takeWhile (p : Char → Bool) : Reading Text := do
  let t ← get
  set (t.dropWhile p)
  return t.takeWhile p

/-- A blank within a line. -/
def isGap (c : Char) : Bool := c == ' ' || c == '\t'

/-- Pass over blanks within the line. -/
def skipGaps : Reading Unit := modify (·.dropWhile isGap)

/-- Take digits; their value, 0 if there are none. -/
def readNumber : Reading Nat := return ofDigits 10 (← takeWhile isAsciiDigit)

/-- The end of a step: the end of a line, a semicolon, or something that is left for what follows. -/
def endStep : Reading Unit := do
  skipGaps
  match ← next? with
  | none   => return
  | some c =>
    if c = '\x7d' ∨ c = '#' then return
    discard take?
    if c = '\n' ∨ c = ';' then return else refuse .extraChars

/-- Take the rest of the line as the name of a file. -/
def readFileName : Reading Text := do
  skipGaps
  let name ← takeWhile (· != '\n')
  discard take?
  if name.isEmpty then refuse .noFile else return name

/-- Take a label. -/
def readLabel : Reading Text := do
  skipGaps
  takeWhile fun c => !(isSpace c || c == ';' || c == '\x7d')

/-! ## Escapes -/

/-- The character that digits in a base spell after a backslash and a letter, and what follows; the letter itself if
    there are no digits. -/
def numberEscape (letter : Char) (base most : Nat) (t : Text) : Char × Text :=
  let digits := (t.take most).takeWhile fun c => (hexValue? c.toLower).any fun v => Nat.blt v base
  if digits.isEmpty then (letter, t)
  else (Char.ofNat (ofDigits base (digits.map Char.toLower) % 256), t.drop digits.length)

/-- Characters with their escapes resolved; those that are spelled by numbers have no special meaning. `fuel` bounds
    their number. -/
def unescape : Nat → Text → Except ScriptFault (List Mark)
  | 0,        _      => .ok []
  | _ + 1,    []     => .ok []
  | fuel + 1, c :: r => do
    let one (c : Char) (r : Text) : Except ScriptFault (List Mark) := return (c, false) :: (← unescape fuel r)
    let byNumber (letter : Char) (base most : Nat) (r : Text) : Except ScriptFault (List Mark) :=
      let (c, r) := numberEscape letter base most r
      one c r
    if c ≠ '\\' then return (c, true) :: (← unescape fuel r)
    else match r with
      | 'a' :: r         => one '\x07' r
      | 'f' :: r         => one '\x0c' r
      | 'n' :: r         => one '\n' r
      | 'r' :: r         => one '\r' r
      | 't' :: r         => one '\t' r
      | 'v' :: r         => one '\x0b' r
      | 'd' :: r         => byNumber 'd' 10 3 r
      | 'o' :: r         => byNumber 'o' 8 3 r
      | 'x' :: r         => byNumber 'x' 16 2 r
      | ['c']            => return [('\\', true)]
      | 'c' :: '\\' :: r => (match r with
        | '\\' :: r => one '\x1c' r
        | _         => throw .escapedTwice)
      | 'c' :: k :: r    => one (Char.ofNat (Nat.xor k.toUpper.toNat 0x40)) r
      | k :: r           => return ('\\', true) :: (k, true) :: (← unescape fuel r)
      | []               => return [('\\', true)]

/-- Characters without the backslashes before them. -/
def bareText : List Mark → Text
  | ('\\', true) :: (c, _) :: r => c :: bareText r
  | (c, _) :: r                 => c :: bareText r
  | []                          => []

/-- Resolve escapes. -/
def resolveEscapes (t : Text) : Reading (List Mark) := do
  match unescape (t.length + 1) t with
  | .ok ms   => return ms
  | .error f => refuse f

/-! ## Patterns and replacements -/

/-- The characters of a bracket expression after its opening bracket, up to the end of the expression; what follows.
    None if it does not end. -/
def bracketText? : Nat → Text → Option (Text × Text)
  | 0,        _      => none
  | _ + 1,    []     => none
  | fuel + 1, c :: r =>
    if c = '\n' then none
    else if c = ']' then some ([']'], r)
    else
      let named (k : Char) (r : Text) : Option (Text × Text) := do
        let (name, rest) ← untilPair? k (marks r)
        let (more, rest) ← bracketText? fuel (rest.map (·.1))
        return ('[' :: k :: name ++ k :: ']' :: more, rest)
      match c, r with
      | '[', ':' :: r => named ':' r
      | '[', '.' :: r => named '.' r
      | '[', '=' :: r => named '=' r
      | _,   _        => (bracketText? fuel r).map fun (t, rest) => (c :: t, rest)

/-- A bracket expression after its opening bracket: signs at its start that do not end it, and its characters. -/
def wholeBracket? (t : Text) : Option (Text × Text) :=
  let start := if t.head? = some '^' then ['^'] else []
  let start := if (t.drop start.length).head? = some ']' then start ++ [']'] else start
  (bracketText? (t.length + 1) (t.drop start.length)).map fun (r, rest) => ('[' :: start ++ r, rest)

/-- What stands before a delimiter, and what follows it; none if the line ends first. A backslash keeps the delimiter
    in, and is taken away then. In a pattern, brackets keep it in as well. `fuel` bounds the characters. -/
def untilDelimiter? (delimiter : Char) (isPattern : Bool) : Nat → Text → Option (Text × Text)
  | 0,        _      => none
  | _ + 1,    []     => none
  | fuel + 1, c :: r =>
    let more (t r : Text) : Option (Text × Text) :=
      (untilDelimiter? delimiter isPattern fuel r).map fun (found, rest) => (t ++ found, rest)
    if c = '\n' then none
    else if c = delimiter then some ([], r)
    else if c = '\\' then
      match r with
      | []     => none
      | k :: r =>
        if k = delimiter then more (if !isPattern && k = '&' then ['\\', k] else [k]) r
        else if isPattern && k = '\n' then more ['\n'] r
        else more ['\\', k] r
    else if isPattern && c = '[' then
      match wholeBracket? r with
      | some (t, rest) => more t rest
      | none           => none
    else more [c] r

/-- How many characters of an open text are read before its fault is noticed: all up to the end of the line. -/
def lineLength : Text → Nat
  | []             => 0
  | '\\' :: _ :: r => lineLength r + 2
  | c :: r         => if c = '\n' then 0 else lineLength r + 1

/-- Read what stands before a delimiter. -/
def readDelimited (delimiter : Char) (isPattern : Bool) (fault : ScriptFault) : Reading Text := do
  let t ← get
  match untilDelimiter? delimiter isPattern (t.length + 1) t with
  | some (found, rest) => do
    set rest
    return found
  | none               => do
    set (t.drop (lineLength t))
    refuse fault

/-- Take a delimiter. -/
def readDelimiter (fault : ScriptFault) : Reading Char := do
  match ← take? with
  | none   => refuse fault
  | some c => return c

/-- The pattern that a text spells; none stands for the one that was looked for last. -/
def readPattern (extended : Bool) (separator : Char) (spelled : Text) (folds byLine : Bool) :
    Reading (Option Pattern) := do
  if spelled.isEmpty then
    if folds || byLine then refuse .flagsWithoutPattern else return none
  let ms ← resolveEscapes spelled
  match readRe ⟨extended, false⟩ (ms.map fun m => (m.1, true)) with
  | .ok (re, groups) => return some ⟨re, groups, folds, byLine && separator == '\n'⟩
  | .error f         => refuse (.badPattern f)

/-- Put a character before pieces. -/
def charBefore (c : Char) : List Piece → List Piece
  | .chars t :: ps => .chars (c :: t) :: ps
  | ps             => .chars [c] :: ps

/-- The pieces of a replacement. -/
def readPieces : List Mark → List Piece
  | ('\\', true) :: (c, _) :: r =>
    if isAsciiDigit c then .group (digitValue c) :: readPieces r
    else match c with
      | 'L' => .cased .lower :: readPieces r
      | 'U' => .cased .upper :: readPieces r
      | 'E' => .cased .keep :: readPieces r
      | 'l' => .next .lower :: readPieces r
      | 'u' => .next .upper :: readPieces r
      | c   => charBefore c (readPieces r)
  | ('&', true) :: r            => .group 0 :: readPieces r
  | (c, _) :: r                 => charBefore c (readPieces r)
  | []                          => []

/-! ## Steps -/

/-- How a script is read. -/
structure Dialect where
  /-- Expressions are spelled in the extended way. -/
  extended : Bool
  /-- What ends a line. -/
  separator : Char

/-- Take the flags of a pattern: whether letters of both cases are the same, and whether lines start and end in it. -/
def readPatternFlags : Nat → Bool → Bool → Reading (Bool × Bool)
  | 0,        folds, byLine => return (folds, byLine)
  | fuel + 1, folds, byLine => do
    skipGaps
    match ← next? with
    | some 'I' => do
      discard take?
      readPatternFlags fuel true byLine
    | some 'M' => do
      discard take?
      readPatternFlags fuel folds true
    | _        => return (folds, byLine)

/-- A spot, or a distance from the first one. -/
def readUntil? (d : Dialect) : Reading (Option Until) := do
  match ← next? with
  | none   => return none
  | some c =>
    if c = '/' ∨ c = '\\' then do
      discard take?
      let delimiter ← if c = '/' then pure c else readDelimiter .openPattern
      let spelled ← readDelimited delimiter true .openPattern
      let (folds, byLine) ← readPatternFlags (← get).length false false
      return some (.spot (.fits (← readPattern d.extended d.separator spelled folds byLine)))
    else if isAsciiDigit c then do
      let first ← readNumber
      skipGaps
      if (← next?) = some '~' then
        discard take?
        skipGaps
        let step ← readNumber
        return some (.spot (if step = 0 then .line first else .every first step))
      return some (.spot (.line first))
    else if c = '+' ∨ c = '~' then do
      discard take?
      skipGaps
      let n ← readNumber
      return some (if c = '+' then .further n else .multiple n)
    else if c = '$' then do
      discard take?
      return some (.spot .last)
    else return none

/-- The scope before a step. -/
def readScope (d : Dialect) : Reading Scope := do
  let (start, stop) ← match ← readUntil? d with
    | none           => pure (none, none)
    | some (.spot s) => do
      skipGaps
      let stop ← if (← next?) = some ',' then do
          discard take?
          skipGaps
          match ← readUntil? d with
          | some u => do
            skipGaps
            pure (some u)
          | none   => do
            discard take?
            refuse .badComma
        else pure none
      match s, stop with
      | .line 0, some (.spot (.fits _)) => pure ()
      | .line 0, _                      => do
        discard take?
        refuse .lineZero
      | _,       _                      => pure ()
      pure (some s, stop)
    | some _         => refuse .badFirst
  if (← next?) = some '!' then
    discard take?
    skipGaps
    if (← next?) = some '!' then
      discard take?
      refuse .manyBangs
    return ⟨start, stop, true⟩
  return ⟨start, stop, false⟩

/-- The flags of a substitution. `fuel` bounds their number. -/
def readSubstitutionFlags : Nat → Substitution × Bool × Bool → Bool → Reading (Substitution × Bool × Bool)
  | 0,        s,                    _       => return s
  | fuel + 1, (s, folds, byLine), counted => do
    skipGaps
    match ← next? with
    | none        => return (s, folds, byLine)
    | some '\x7d' => return (s, folds, byLine)
    | some '#'    => return (s, folds, byLine)
    | some c      =>
      if isAsciiDigit c then
        if counted then
          discard take?
          refuse .manyNumbers
        let n ← readNumber
        if n = 0 then refuse .zeroNumber
        readSubstitutionFlags fuel ({ s with number := n }, folds, byLine) true
      else
        discard take?
        match c with
        | '\n' => return (s, folds, byLine)
        | ';'  => return (s, folds, byLine)
        | 'i'  => readSubstitutionFlags fuel (s, true, byLine) counted
        | 'I'  => readSubstitutionFlags fuel (s, true, byLine) counted
        | 'm'  => readSubstitutionFlags fuel (s, folds, true) counted
        | 'M'  => readSubstitutionFlags fuel (s, folds, true) counted
        | 'e'  => readSubstitutionFlags fuel ({ s with runs := true }, folds, byLine) counted
        | 'p'  =>
          if s.prints || s.printsFirst then refuse .manyPrints
          else
            let s := if s.runs then { s with prints := true } else { s with printsFirst := true }
            readSubstitutionFlags fuel (s, folds, byLine) counted
        | 'g'  =>
          if s.all then refuse .manyAlls
          else readSubstitutionFlags fuel ({ s with all := true }, folds, byLine) counted
        | 'w'  => do
          let file ← readFileName
          return ({ s with file := some file }, folds, byLine)
        | _    => refuse .unknownFlag

/-- Read a substitution after its letter. -/
def readSubstitution (d : Dialect) : Reading Deed := do
  let delimiter ← readDelimiter .openSubstitution
  let spelled ← readDelimited delimiter true .openSubstitution
  let replacement ← readDelimited delimiter false .openSubstitution
  let pieces := readPieces (← resolveEscapes replacement)
  let s : Substitution := ⟨none, pieces, false, 1, false, false, false, none⟩
  let (s, folds, byLine) ← readSubstitutionFlags ((← get).length + 1) (s, false, false) false
  -- Only before a command is run it matters whether the printing comes first.
  let s := if s.runs then s else { s with prints := s.prints || s.printsFirst, printsFirst := false }
  let pattern ← readPattern d.extended d.separator spelled folds byLine
  match pattern with
  | some p => if p.groups < s.greatest then refuse (.noGroup s.greatest)
  | none   => pure ()
  return .substitute { s with pattern := pattern }

/-- Read the characters to be replaced and those that replace them. -/
def readCharacters : Reading Deed := do
  let delimiter ← readDelimiter .openCharacters
  let old ← readDelimited delimiter false .openCharacters
  let new ← readDelimited delimiter false .openCharacters
  let old := bareText (← resolveEscapes old)
  let new := bareText (← resolveEscapes new)
  if old.length ≠ new.length then refuse .unequalCharacters
  endStep
  return .replaceChars (old.zip new)

/-- The lines of a text up to one that does not end in a backslash, and what follows; also whether the part ended after
    a backslash. -/
def textLines : Text → Text × Text × Bool
  | []             => ([], [], false)
  | ['\\']         => ([], [], true)
  | '\\' :: c :: r => let (t, rest, isOpen) := textLines r; ('\\' :: c :: t, rest, isOpen)
  | c :: r         =>
    if c = '\n' then ([], r, false)
    else let (t, rest, isOpen) := textLines r; (c :: t, rest, isOpen)

/-- The start of a text, after its letter: the spelled lines, and whether it goes on in the next part. -/
def readText : Reading (Text × Bool) := do
  skipGaps
  match ← next? with
  | none      => refuse .noText
  | some '\\' => do
    discard take?
    match ← next? with
    | none      => return ([], true)
    | some '\n' => discard take?
    | some _    => pure ()
  | some _    => pure ()
  let (t, rest, isOpen) := textLines (← get)
  set rest
  return (if isOpen then t ++ text "\\\n" else t ++ ['\n'], isOpen)

/-- A number that is not too great for a version. -/
def versionLimit : List Nat := [4, 9]

/-- The version is later than the one that scripts are read by. -/
def isLater (version : Text) : Bool :=
  let parts := splitOn '.' version
  if parts.any fun p => p.isEmpty || !p.all isAsciiDigit then version.head?.any fun c => !isAsciiDigit c
  else
    let numbers := parts.map (ofDigits 10)
    let rec later : List Nat → List Nat → Bool
      | [],      _       => false
      | _ :: _,  []      => true
      | a :: as, b :: bs => Nat.blt b a || (a == b && later as bs)
    later numbers versionLimit

/-- What was read: a deed, or a text that goes on in the next part. -/
inductive Written where
  | deed (d : Deed)
  | label (name : Text)
  | pending (make : Text → Deed) (spelled : Text)
  | comment
  | blockEnd

/-- A deed with a text. -/
def readWithText (make : Text → Deed) : Reading Written := do
  let (t, isOpen) ← readText
  if isOpen then return .pending make t
  else return .deed (make (bareText (← resolveEscapes t)))

/-- Read what a step does. -/
def readDeed (d : Dialect) (s : Scope) (inBlock : Bool) : Reading Written := do
  let simple (deed : Deed) : Reading Written := do
    endStep
    return .deed deed
  match ← take? with
  | none   => refuse .noStep
  | some c =>
    match c with
    | '#'    => do
      if s.start.isSome then refuse .scopedComment
      discard (takeWhile (· != '\n'))
      return .comment
    | 'v'    => do
      let version ← readLabel
      if isLater version then refuse .tooOld
      return .comment
    | '\x7b' => return .deed (.enter 0)
    | '\x7d' => do
      if !inBlock then refuse .notInBlock
      if s.start.isSome then refuse .scopedEnd
      endStep
      return .blockEnd
    | ':'    => do
      if s.start.isSome then refuse .scopedLabel
      let label ← readLabel
      if label.isEmpty then refuse .noLabel
      return .label label
    | 'b'    => return .deed (.jump .always (← readLabel))
    | 't'    => return .deed (.jump .replaced (← readLabel))
    | 'T'    => return .deed (.jump .notReplaced (← readLabel))
    | 'a'    => readWithText .addAfter
    | 'i'    => readWithText .addBefore
    | 'c'    => readWithText .putInstead
    | 'e'    => do
      skipGaps
      match ← next? with
      | none      => return .deed (.run none)
      | some '\n' => return .deed (.run none)
      | some _    => readWithText fun t => .run (some t)
    | 's'    => return .deed (← readSubstitution d)
    | 'y'    => return .deed (← readCharacters)
    | 'r'    => return .deed (.addFile (← readFileName))
    | 'R'    => return .deed (.addLine (← readFileName))
    | 'w'    => return .deed (.write (← readFileName))
    | 'W'    => return .deed (.writeFirst (← readFileName))
    | 'q'    => readQuit true
    | 'Q'    => readQuit false
    | 'l'    => do
      skipGaps
      let width ← if (← next?).any isAsciiDigit then some <$> readNumber else pure none
      endStep
      return .deed (.show width)
    | 'd'    => simple .delete
    | 'D'    => simple .deleteFirst
    | 'p'    => simple .print
    | 'P'    => simple .printFirst
    | 'n'    => simple .next
    | 'N'    => simple .join
    | 'h'    => simple .copyOut
    | 'H'    => simple .appendOut
    | 'g'    => simple .copyIn
    | 'G'    => simple .appendIn
    | 'x'    => simple .exchange
    | 'z'    => simple .clear
    | '='    => simple .number
    | 'F'    => simple .fileName
    | c      => refuse (.unknownStep c)
where
  /-- The end of the run, with a code. -/
  readQuit (prints : Bool) : Reading Written := do
    if s.stop.isSome then refuse .oneLineOnly
    skipGaps
    let code ← if (← next?).any isAsciiDigit then readNumber else pure 0
    endStep
    return .deed (.quit code prints)

/-! ## Scripts -/

/-- Where a part of a script comes from. -/
inductive Source where
  /-- The argument with this number among those that hold parts. -/
  | argument (n : Nat)
  | file (name : Text)

/-- A part of a script. -/
structure Part where
  source : Source
  content : Text

/-- How far a part is read when so many characters are left: the characters of an argument, the lines of a file. -/
def Part.place (p : Part) (left : Nat) : Nat :=
  let done := p.content.take (p.content.length - left)
  match p.source with
  | .argument _ => done.length
  | .file _     => done.count '\n' + 1

/-- Why a script cannot be used, and where. -/
inductive ScriptError where
  | fault (source : Source) (place : Nat) (f : ScriptFault)
  | noTarget (label : Text)

/-- The wording of an error. -/
def ScriptError.message : ScriptError → Text
  | .fault (.argument n) place f => text "-e expression #" ++ ofNat n ++ text ", char " ++ ofNat place ++ text ": " ++ f.message
  | .fault (.file name) place f  => text "file " ++ name ++ text " line " ++ ofNat place ++ text ": " ++ f.message
  | .noTarget label              => text "can't find label for jump to " ++ ticked label

/-- The exit code for an error. -/
def ScriptError.code : ScriptError → Nat
  | .fault _ _ _ => 1
  | .noTarget _  => 4

/-- What was read of a script so far. -/
structure Draft where
  steps : Array Step
  /-- The open blocks, the inmost first: the numbers of their steps and where they begin. -/
  blocks : List (Nat × Source × Nat)
  labels : List (Text × Nat)
  /-- The labels that are jumped to, the latest first. -/
  jumps : List Text
  /-- A text that goes on: the number of its step, what the step does with it, and how it is spelled so far. -/
  pending : Option (Nat × (Text → Deed) × Text)
  quiet : Bool

namespace Draft

/-- Nothing is read. -/
def empty : Draft := ⟨#[], [], [], [], none, false⟩

/-- Add a step. -/
def push (b : Draft) (scope : Scope) (deed : Deed) : Draft := { b with steps := b.steps.push ⟨scope, deed⟩ }

/-- Give a step something else to do. -/
def setDeed (b : Draft) (i : Nat) (deed : Deed) : Draft :=
  { b with steps := b.steps.modify i fun s => { s with deed := deed } }

/-- Add what was read. -/
def add (b : Draft) (p : Part) (left : Nat) (scope : Scope) : Written → Draft
  | .deed (.enter n)         =>
    let place := match p.source with
      | .argument _ => 0
      | .file _     => p.place left
    { b.push scope (.enter n) with blocks := (b.steps.size, p.source, place) :: b.blocks }
  | .deed (.jump c label)    =>
    { b.push scope (.jump c label) with jumps := if label.isEmpty then b.jumps else label :: b.jumps }
  | .deed d                  => b.push scope d
  | .label name              => { b.push scope .label with labels := (name, b.steps.size) :: b.labels }
  | .pending make spelled    => { b.push scope .leave with pending := some (b.steps.size, make, spelled) }
  | .comment                 => b
  | .blockEnd                =>
    match b.blocks with
    | (i, _) :: more => { (b.setDeed i (.enter b.steps.size)).push scope .leave with blocks := more }
    | []             => b

/-- Read steps up to the end of a part. `fuel` bounds their number. -/
def addSteps (d : Dialect) (p : Part) : Nat → Draft → Reading Draft
  | 0,        b => return b
  | fuel + 1, b => do
    discard (takeWhile fun c => isSpace c || c == ';')
    if (← next?).isNone then return b
    let scope ← readScope d
    let written ← readDeed d scope (!b.blocks.isEmpty)
    addSteps d p fuel (b.add p (← get).length scope written)

/-- Go on with a text that an earlier part began. -/
def resume (b : Draft) : Reading Draft := do
  match b.pending with
  | none                    => return b
  | some (i, make, spelled) => do
    let (t, rest, isOpen) := textLines (← get)
    set rest
    if isOpen then return { b with pending := some (i, make, spelled ++ t ++ text "\\\n") }
    let ms ← resolveEscapes (spelled ++ t ++ ['\n'])
    return { b.setDeed i (make (bareText ms)) with pending := none }

/-- Read one more part. -/
def addPart (d : Dialect) (isFirst : Bool) (b : Draft) (p : Part) : Except ScriptError Draft :=
  let b := if isFirst && startsWith (text "#n") p.content then { b with quiet := true } else b
  let reading : Reading Draft := do addSteps d p (p.content.length + 1) (← b.resume)
  match reading.run p.content with
  | .ok (b, _)   => .ok b
  | .error r     => .error (.fault p.source (p.place r.left) r.fault)

/-- The script when all of its parts are read. -/
def finish (b : Draft) : Except ScriptError Script :=
  match b.blocks with
  | (_, source, place) :: _ => .error (.fault source place .openBlock)
  | []                      =>
    match b.jumps.find? fun j => (b.labels.lookup j).isNone with
    | some label => .error (.noTarget label)
    | none       =>
      let b := match b.pending with
        | none                    => b
        | some (i, make, spelled) =>
          let plain := match unescape (spelled.length + 1) spelled with
            | .ok ms   => bareText ms
            | .error _ => spelled
          b.setDeed i (make plain)
      .ok ⟨b.steps, b.labels, b.quiet⟩

end Draft

end JavaMend.Host.Editor
