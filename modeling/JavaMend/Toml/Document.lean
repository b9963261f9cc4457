import JavaMend.Toml.Scalar

/-!
# `Toml.Document` — reading documents

A document is a row of lines: fields, and headers that open a table or an element of a list of tables for the fields
after them.

## Contents
- **Values.** `value?`, `items?`, `inlineFields?`: strings, numbers, moments, lists and inline tables.
- **Lines.** `Line`, `line?`, `documentLines?`.
- **Documents.** `Section`, `sectionsOf`, `build?`, `parse?`.
-/

namespace JavaMend.Toml

open JavaMend Text

/-! ## Values -/

/-- A character of a number or of a truth value. -/
def isWordPart (c : Char) : Bool :=
  isAsciiUpper c || isAsciiLower c || isAsciiDigit c || c == '+' || c == '-' || c == '_' || c == '.'
    || c == ':'

/-- The value that a word stands for. -/
def wordValue? (word : Text) : Option Value :=
  if word = text "true" then some (.boolean true)
  else if word = text "false" then some (.boolean false)
  else match integer? word with
    | some n => some (.integer n)
    | none   => if isFloat word && !isTooLarge word then some (.float word) else none

mutual

/-- A value that `depth` lists and inline tables surround. `fuel` bounds the depth of nesting and the number of items. -/
def value? : Nat → Nat → Reader Value
  | 0,        _,     _ => none
  | fuel + 1, depth, t =>
    let inner := depth + 1
    match t with
    | '[' :: rest    =>
      if nestingLimit ≤ inner then none
      else (items? fuel inner (skipLines rest)).map fun (items, rest) => (.array false items, rest)
    | '\x7b' :: rest => do
      if nestingLimit ≤ inner then none
      let (fields, rest) ← inlineFields? fuel inner true (skipSpace rest)
      let table ← fields.foldlM (fun fs ((path, key), v) => Fields.assign? path key v fs) []
      return (.table .inlined table, rest)
    | '"' :: _       => (string? t).map fun (s, rest) => (.string s, rest)
    | '\'' :: _      => (string? t).map fun (s, rest) => (.string s, rest)
    | _              =>
      match Moment.read? t with
      | some (m, rest) => some (.moment m, rest)
      | none           =>
        let word := t.takeWhile isWordPart
        (wordValue? word).map fun v => (v, t.drop word.length)

/-- The items of a list up to its closing bracket. A comma may follow the last one. -/
def items? : Nat → Nat → Reader (List Value)
  | 0,        _,     _ => none
  | fuel + 1, depth, t =>
    match t with
    | ']' :: rest => some ([], rest)
    | _           => do
      let (v, rest) ← value? fuel depth t
      match skipLines rest with
      | ',' :: rest =>
        let (vs, rest) ← items? fuel depth (skipLines rest)
        return (v :: vs, rest)
      | ']' :: rest => return ([v], rest)
      | _           => none

/-- The fields of an inline table up to its closing brace; no comma follows the last one. -/
def inlineFields? : Nat → Nat → Bool → Reader (List ((List Text × Text) × Value))
  | 0,        _,     _,     _ => none
  | fuel + 1, depth, first, t =>
    match first, t with
    | true, '\x7d' :: rest => some ([], rest)
    | _,    _              => do
      let (key, rest) ← key? t
      let rest ← dropPrefix? ['='] (skipSpace rest)
      let (v, rest) ← value? fuel depth (skipSpace rest)
      match skipSpace rest with
      | ',' :: rest    =>
        let (more, rest) ← inlineFields? fuel depth false (skipSpace rest)
        return ((key, v) :: more, rest)
      | '\x7d' :: rest => return ([(key, v)], rest)
      | _              => none

end

/-! ## Lines -/

/-- What a line says. -/
inductive Line where
  | blank
  | field (path : List Text) (key : Text) (value : Value)
  | header (path : List Text) (key : Text)
  | element (path : List Text) (key : Text)

/-- What a line says, before the white space and the comment at its end. -/
def line? (t : Text) : Option (Line × Text) :=
  match t with
  | []                 => some (.blank, [])
  | '\n' :: _          => some (.blank, t)
  | '\r' :: _          => some (.blank, t)
  | '#' :: _           => some (.blank, t)
  | '[' :: '[' :: rest => do
    let ((path, key), rest) ← key? rest
    let rest ← dropPrefix? (text "]]") (skipSpace rest)
    return (.element path key, rest)
  | '[' :: rest        => do
    let ((path, key), rest) ← key? rest
    let rest ← dropPrefix? [']'] (skipSpace rest)
    return (.header path key, rest)
  | _                  => do
    let ((path, key), rest) ← key? t
    let rest ← dropPrefix? ['='] (skipSpace rest)
    let (v, rest) ← value? (rest.length + 1) 0 (skipSpace rest)
    return (.field path key v, rest)

/-- The lines of a document. `fuel` bounds their number. -/
def documentLines? : Nat → Text → Option (List Line)
  | 0,        _ => none
  | fuel + 1, t => do
    let (line, rest) ← line? (skipSpace t)
    match skipComment (skipSpace rest) with
    | []   => return [line]
    | rest => return line :: (← documentLines? fuel (← newline? rest))

/-! ## Documents -/

/-- A header with the fields below it. -/
structure Section where
  /-- The header; none for the fields at the top. -/
  header : Option Line
  fields : List ((List Text × Text) × Value)

/-- Gather lines into the sections that they form. -/
def sectionsOf (header : Option Line) : List Line → List Section
  | []                         => [⟨header, []⟩]
  | .blank :: ls               => sectionsOf header ls
  | .field path key value :: ls =>
    match sectionsOf header ls with
    | s :: ss => { s with fields := ((path, key), value) :: s.fields } :: ss
    | []      => []
  | .header path key :: ls     => ⟨header, []⟩ :: sectionsOf (some (.header path key)) ls
  | .element path key :: ls    => ⟨header, []⟩ :: sectionsOf (some (.element path key)) ls

/-- Add the fields of a section to those of its table. -/
def Section.fill? (s : Section) (fs : Fields) : Option Fields :=
  s.fields.foldlM (fun acc ((path, key), value) => Fields.assign? path key value acc) fs

/-- Add a section to a document. -/
def Section.place? (s : Section) (root : Fields) : Option Fields :=
  match s.header with
  | some (.header path key)  => Fields.openTable? path key s.fill? root
  | some (.element path key) => Fields.openElement? path key s.fill? root
  | _                        => s.fill? root

/-- The document that lines make up. -/
def build? (ls : List Line) : Option Fields := (sectionsOf none ls).foldlM (fun root s => s.place? root) []

/-- Read a document. A byte order mark at its start means nothing. -/
def parse? (t : Text) : Option Fields :=
  let t := (dropPrefix? ['\ufeff'] t).getD t
  (documentLines? (t.length + 1) t).bind build?

end JavaMend.Toml
