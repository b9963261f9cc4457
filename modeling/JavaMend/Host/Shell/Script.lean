import JavaMend.Host.Tool

/-!
# `Host.Shell.Script` — command scripts

A script is made of commands whose words are still to be expanded. A word is a row of parts: characters that stand for
themselves, quotation marks, and what is put in their place when the word is expanded.

## Contents
- **Words.** `Change`, `Part`, `Word`.
- **Commands.** `FileUse`, `Redirect`, `Script`, `Branch`.
- **Looking at words.** `Word.hasQuotes`, `Word.bare?`, `Word.letters`, `Word.assigned?`.
-/

namespace JavaMend.Host.Shell

open JavaMend Text

/-! ## Words -/

/-- What is made of the value of a parameter. -/
inductive Change where
  | keep
  | length
  /-- A word instead of a value that is missing. -/
  | orElse
  /-- The same, and the word becomes the value. -/
  | orAssign
  /-- A complaint about a value that is missing. -/
  | orFail
  /-- A word instead of a value that is there. -/
  | ifSet
  /-- The value without what matches a pattern at its start or its end. -/
  | cut (atEnd longest : Bool)
  /-- There is no such change. -/
  | unknown
deriving DecidableEq, Repr

/-- How a file is opened. -/
inductive FileUse where
  | read
  | readWrite
  | write
  /-- Writing, even if what is there should be kept. -/
  | overwrite
  | append
deriving DecidableEq, Repr

mutual

/-- A part of a word. -/
inductive Part where
  /-- A character; one that is quoted means nothing but itself. -/
  | char (c : Char) (isQuoted : Bool)
  /-- A quotation mark. -/
  | mark
  /-- The value of a parameter. An empty one is missing too if `orEmpty` holds. -/
  | parameter (name : Text) (change : Change) (orEmpty : Bool) (word : List Part) (isQuoted : Bool)
  /-- What a script writes. -/
  | output (body : Script) (isQuoted : Bool)
  /-- The value of an arithmetic expression. -/
  | number (expression : List Part) (isQuoted : Bool)

/-- A redirection of a channel. -/
inductive Redirect where
  | file (channel : Nat) (use : FileUse) (target : List Part)
  /-- To where another channel leads, or to nowhere. -/
  | copy (channel : Nat) (source : List Part)
  /-- To a text that stands in the script, known by a number. -/
  | document (channel : Nat) (id : Nat)

/-- A script. Commands know the line in which they stand. -/
inductive Script where
  | nothing
  | simple (line : Nat) (assigned : List (Text × List Part)) (words : List (List Part)) (redirects : List Redirect)
  | redirected (line : Nat) (body : Script) (redirects : List Redirect)
  | seq (a b : Script)
  | both (a b : Script)
  | either (a b : Script)
  | negated (body : Script)
  | pipe (parts : List Script)
  | background (line : Nat) (body : Script) (redirects : List Redirect)
  | subshell (line : Nat) (body : Script) (redirects : List Redirect)
  | choose (condition yes no : Script)
  | loop (untilTrue : Bool) (condition body : Script)
  | each (line : Nat) (name : Text) (words : List (List Part)) (body : Script)
  | select (line : Nat) (word : List Part) (branches : List Branch)
  | define (name : Text) (body : Script)

/-- Patterns and what is run if one of them matches. -/
inductive Branch where
  | mk (patterns : List (List Part)) (body : Script)

end

/-- A word before it is expanded. -/
abbrev Word := List Part

instance : Inhabited Script := ⟨.nothing⟩

/-! ## Looking at words -/

/-- The character can start the name of a variable. -/
def isNameStart (c : Char) : Bool := c == '_' || c.isAlpha

/-- The character can stand in the name of a variable. -/
def isNameChar (c : Char) : Bool := c == '_' || c.isAlphanum

/-- The text is the name of a variable. -/
def isName : Text → Bool
  | []     => false
  | c :: r => isNameStart c && r.all isNameChar

namespace Word

mutual

/-- The part holds quotes. -/
def partHasQuotes : Part → Bool
  | .char _ isQuoted         => isQuoted
  | .mark                    => true
  | .parameter _ _ _ word _  => hasQuotes word
  | .output _ _              => false
  | .number _ _              => false

/-- The word holds quotes. -/
def hasQuotes : List Part → Bool
  | []      => false
  | p :: ps => partHasQuotes p || hasQuotes ps

end

/-- The text of a word of plain characters. -/
def bare? : Word → Option Text
  | []                 => some []
  | .char c false :: w => (bare? w).map (c :: ·)
  | _                  => none

/-- The characters of a word, without its quotes. -/
def letters (w : Word) : Text := w.filterMap fun p => match p with
  | .char c _ => some c
  | _         => none

/-- The plain characters at the start of a word and what follows them. -/
def bareStart (keep : Char → Bool) : Word → Text × Word
  | .char c false :: w =>
    if keep c then
      let (t, rest) := bareStart keep w
      (c :: t, rest)
    else ([], .char c false :: w)
  | w                  => ([], w)

/-- The name that a word assigns to, and the rest of the word. -/
def assigned? (w : Word) : Option (Text × Word) :=
  match bareStart isNameChar w with
  | (name, .char '=' false :: rest) => if isName name then some (name, rest) else none
  | _                               => none

/-- A plain word is its text. -/
theorem bare?_chars (t : Text) : bare? (t.map fun c => .char c false) = some t := by
  induction t with
  | nil => rfl
  | cons c t ih => simp [bare?, ih]

/-- A plain word has no quotes. -/
theorem hasQuotes_chars (t : Text) : hasQuotes (t.map fun c => .char c false) = false := by
  induction t with
  | nil => simp [hasQuotes]
  | cons c t ih => simp [hasQuotes, partHasQuotes, ih]

end Word
end JavaMend.Host.Shell
