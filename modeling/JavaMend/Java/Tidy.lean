import JavaMend.Java.Segments

/-!
# `Java.Tidy` — cosmetic edits

A catalogue of five edits that tidy a text without changing what it says: white space at line ends, repeated casts,
types that a decompiler could not infer, empty statements, and blank lines. They run in the order of the catalogue.

## Contents
- **Line ends.** `stripLineEnds`.
- **Casts.** `cast?`, `moreCasts`, `collapseCasts`.
- **Types.** `nameUndefined`.
- **Statements.** `collapseSemicolons`, `dropEmptyStatements`.
- **Blank lines.** `squeezeBlank`, `collapseBlankLines`.
- **The catalogue.** `Edit`, `catalogue`, `tidy`.
-/

namespace JavaMend.Java

open JavaMend Text

/-- Change a text line by line. -/
def mapLines (f : Text → Text) (t : Text) : Text := joinWith ['\n'] ((splitOn '\n' t).map f)

/-! ## Line ends -/

/-- Drop white space at the ends of lines. -/
def stripLineEnds (t : Text) : Text := mapLines trimEnd t

/-! ## Casts -/

/-- The types whose casts are collapsed. -/
def primitives : List Text :=
  [text "byte", text "short", text "int", text "long", text "float", text "double", text "char",
    text "boolean"]

/-- A cast to a primitive type at the start of a text: the type and what follows the cast. -/
def cast? (t : Text) : Option (Text × Text) :=
  primitives.findSome? fun type => (dropPrefix? ('(' :: type ++ [')']) t).map fun rest => (type, rest)

theorem length_cast?_lt {t type rest : Text} (h : cast? t = some (type, rest)) : rest.length < t.length := by
  obtain ⟨u, -, hu⟩ := List.exists_of_findSome?_eq_some h
  obtain ⟨r, hr, he⟩ := Option.map_eq_some_iff.1 hu
  rw [dropPrefix?_eq_some] at hr
  simp only [Prod.mk.injEq] at he
  rw [hr, ← he.2]
  simp only [List.length_append, List.length_cons]
  omega

/-- The casts that follow one another, with white space between them: their text and their types. -/
def moreCasts (t : Text) : Text × List Text :=
  let gap := t.takeWhile isBlank
  match _h : cast? (t.dropWhile isBlank) with
  | none              => ([], [])
  | some (type, rest) =>
    let more := moreCasts rest
    (gap ++ '(' :: type ++ [')'] ++ more.1, type :: more.2)
termination_by t.length
decreasing_by
  have h1 := length_cast?_lt _h
  have h2 := (List.dropWhile_sublist isBlank (l := t)).length_le
  omega

/-- The finder of two or more casts in a row. -/
def findCasts : Finder (List Text) := fun _ t => do
  let (type, rest) ← cast? t
  match moreCasts rest with
  | (_, [])       => none
  | (more, types) => return ('(' :: type ++ [')'] ++ more, type :: types)

/-- Drop an item that equals the one before it. -/
def dedupAdjacent : List Text → List Text
  | []          => []
  | [t]         => [t]
  | t :: u :: r => if t = u then dedupAdjacent (u :: r) else t :: dedupAdjacent (u :: r)

/-- Write equal casts in a row once, and different ones without the space between them. -/
def collapseCasts (t : Text) : Text :=
  mapCode (substitute findCasts fun _ types =>
    (dedupAdjacent types).flatMap fun type => '(' :: type ++ [')']) t

/-! ## Types -/

/-- Name the types that could not be inferred. -/
def nameUndefined (t : Text) : Text := mapCode (replaceAll (text "<undefinedtype>") (text "Object")) t

/-! ## Statements -/

/-- The line opens with `for`, and that is the whole word. -/
def isForHeader (line : Text) : Bool :=
  match dropPrefix? (text "for") (trimStart line) with
  | some (c :: _) => c == '(' || isBlank c
  | _             => false

/-- A blank or a tab. -/
def isGap (c : Char) : Bool := c == ' ' || c == '\t'

/-- Write several semicolons at the end of a line as one; the white space after the last one stays. -/
def collapseSemicolons (line : Text) : Text :=
  let inTail := fun c => isGap c || c == ';'
  let tail := (line.reverse.takeWhile inTail).reverse
  let head := (line.reverse.dropWhile inTail).reverse
  if 2 ≤ tail.count ';' then
    head ++ tail.takeWhile isGap ++ ';' :: (tail.reverse.takeWhile isGap).reverse
  else line

/-- A line that surely holds neither comment nor literal. -/
def isPlainCode (line : Text) : Bool := !contains (text "//") line && !line.any fun c => c == '"' || c == '\''

/-- Drop empty statements at line ends. Lines that open a `for` header keep their semicolons. -/
def dropEmptyStatements (t : Text) : Text :=
  mapLines (fun line => if isPlainCode line && !isForHeader line then collapseSemicolons line else line) t

/-! ## Blank lines -/

/-- Keep one blank line of each run, and none at the start. `open_` tells that a blank line would not be kept. -/
def squeezeBlank (open_ : Bool) : List Text → List Text
  | []      => []
  | l :: ls =>
    if isBlankLine l then if open_ then squeezeBlank true ls else l :: squeezeBlank true ls
    else l :: squeezeBlank false ls

/-- At most one blank line in a row, none at either end, and a newline at the end. -/
def collapseBlankLines (t : Text) : Text :=
  let kept := ((squeezeBlank true (splitOn '\n' t)).reverse.dropWhile isBlankLine).reverse
  if kept.isEmpty then [] else joinWith ['\n'] kept ++ ['\n']

/-! ## The catalogue -/

/-- An edit with its name. -/
structure Edit where
  name : Text
  apply : Text → Text

/-- The edits in the order in which they run. -/
def catalogue : List Edit :=
  [⟨text "trailing whitespace", stripLineEnds⟩,
    ⟨text "repeated casts", collapseCasts⟩,
    ⟨text "undefined types", nameUndefined⟩,
    ⟨text "empty statements", dropEmptyStatements⟩,
    ⟨text "blank lines", collapseBlankLines⟩]

/-- Tidy a text. -/
def tidy (t : Text) : Text := catalogue.foldl (fun acc r => r.apply acc) t

/-- What the text is after each edit of the catalogue. -/
def tidySteps (edits : List Edit) (t : Text) : List (Text × Text) :=
  match edits with
  | []      => []
  | r :: rs => (r.name, r.apply t) :: tidySteps rs (r.apply t)

/-- The edit with the given name. -/
def editNamed? (name : Text) : Option Edit := catalogue.find? fun e => e.name == name

end JavaMend.Java
