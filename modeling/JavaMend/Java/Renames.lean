import JavaMend.Java.Imports

/-!
# `Java.Renames` — classes under their public names

A rename table maps the qualified names that a decompiler leaves to the names by which the classes are known. A name
is replaced where it stands as a whole: no identifier character touches it and no dot precedes it.

## Contents
- **Tables.** `RenameTable`, `RenameError`, `RenameTable.ofPairs`, `RenameTable.fault?`.
- **Words.** `findWhole`, `replaceWhole`.
- **Renaming.** `order`, `renameCode`, `renameClasses`.
-/

namespace JavaMend.Java

open JavaMend Text

/-! ## Tables -/

/-- Names and what replaces them, in the order of the names, no name twice. -/
abbrev RenameTable := List (Text × Text)

/-- Why a rename table is refused. -/
inductive RenameError where
  /-- A name is mapped onto itself. -/
  | fixedPoint (name : Text)
  /-- A name is mapped onto another name of the table. -/
  | chain (first second third : Text)
deriving DecidableEq

/-- The wording of a refusal. -/
def RenameError.message : RenameError → Text
  | .fixedPoint name          => text "Rename table maps " ++ name ++ text " onto itself"
  | .chain first second third =>
    text "Rename table chains " ++ first ++ text " -> " ++ second ++ text " -> " ++ third

namespace RenameTable

/-- What a name is mapped to. -/
def target? (table : RenameTable) (name : Text) : Option Text :=
  (List.find? (fun pair => pair.1 == name) table).map (·.2)

/-- Put a pair in its place among pairs in the order of their names; it replaces a pair with its name. -/
def insert (pair : Text × Text) : RenameTable → RenameTable
  | []           => [pair]
  | other :: rest =>
    if pair.1 = other.1 then pair :: rest
    else if pair.1.before other.1 then pair :: other :: rest
    else other :: insert pair rest

/-- The table of pairs, the last pair with a name winning. -/
def ofPairs (pairs : List (Text × Text)) : RenameTable := pairs.foldl (fun table pair => insert pair table) []

/-- The first fault of a table: a target that is itself renamed makes the result depend on how often the table is
    used. -/
def fault? (table : RenameTable) : Option RenameError :=
  table.findSome? fun (name, target) =>
    if name = target then some (.fixedPoint name)
    else (target? table target).map fun third => .chain name target third

end RenameTable

/-! ## Words -/

/-- The finder of a word; the value tells whether it stands as a whole. -/
def findWhole (word : Text) : Finder Bool := fun before t => do
  let rest ← dropPrefix? word t
  let free := !before.any (fun c => isIdentChar c || c == '.') && !rest.head?.any isIdentChar
  return (word, free)

/-- Put `new` wherever neither neighbour belongs to a name: the whole occurrences of the empty word. -/
def fillGaps (new : Text) (before : Option Char) : Text → Text
  | []     => if before.any fun c => isIdentChar c || c == '.' then [] else new
  | c :: t =>
    let free := !before.any (fun c => isIdentChar c || c == '.') && !isIdentChar c
    (if free then new else []) ++ c :: fillGaps new (some c) t

/-- Replace the whole occurrences of a word. -/
def replaceWhole (word new : Text) (t : Text) : Text :=
  if word.isEmpty then fillGaps new none t
  else substitute (findWhole word) (fun found free => if free then new else found) t

/-! ## Renaming -/

/-- A longer name, in bytes, goes before a shorter one; names of one length go in text order. -/
def goesBefore (a b : Text × Text) : Bool :=
  if a.1.byteLength = b.1.byteLength then a.1.before b.1 else decide (b.1.byteLength < a.1.byteLength)

/-- Put a pair in its place in the order of renaming. -/
def insertByLength (pair : Text × Text) : List (Text × Text) → List (Text × Text)
  | []            => [pair]
  | other :: rest => if goesBefore pair other then pair :: other :: rest else other :: insertByLength pair rest

/-- The pairs of a table in the order in which they are replaced. -/
def order (table : RenameTable) : List (Text × Text) := table.foldr insertByLength []

/-- Replace the names of a table in a stretch of code, one name after another. -/
def renameCode (table : RenameTable) (code : Text) : Text :=
  (order table).foldl (fun acc pair => replaceWhole pair.1 pair.2 acc) code

/-- Replace the names of a table in the code of a text. A renamed import may be out of order or say nothing, so the
    imports of a changed text are repaired. -/
def renameClasses (table : RenameTable) (t : Text) : Text :=
  let renamed := mapCode (renameCode table) t
  if renamed = t then t else fixImports renamed

end JavaMend.Java
