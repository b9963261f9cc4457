import JavaMend.Java.Segments

/-!
# `Java.Qualified` — qualified names and declarations in code

Finders for the names that import repair works with: a qualified class name of the packages below `java` and `javax`,
and the name that a type declaration introduces.

## Contents
- **Qualified names.** `Qualified`, `packageTail?`, `longestName?`, `findQualified`.
- **Declarations.** `declaredName?`, `findDeclared`.
-/

namespace JavaMend.Java

open JavaMend Text

/-! ## Qualified names -/

/-- An occurrence of a class name with its package; `joined` tells that it goes on from a longer name on its left. -/
structure Qualified where
  package : Text
  name : Text
  joined : Bool
deriving DecidableEq, Repr

/-- The name with its package. -/
def Qualified.full (q : Qualified) : Text := q.package ++ '.' :: q.name

/-- A character that can open a package segment. -/
def opensSegment (c : Char) : Bool := isAsciiLower c || c == '_'

/-- A character that can stand in a package segment. -/
def inSegment (c : Char) : Bool := isAsciiLower c || isAsciiDigit c || c == '_'

/-- A character that can stand in a class name. -/
def inClassName (c : Char) : Bool :=
  isAsciiUpper c || isAsciiLower c || isAsciiDigit c || c == '_' || c == '$'

/-- The longest nonempty part of a class name that ends at a word boundary. The name is given backwards, with the
    character that follows it. -/
def longestName? (after : Option Char) : Text → Option Text
  | []     => none
  | c :: t => if isBoundary (some c) after then some (c :: t).reverse else longestName? (some c) t

/-- The package segments that follow a root package and the class name after them. -/
def packageTail? : Text → Option (Text × Text)
  | '.' :: c :: t =>
    if opensSegment c then
      (packageTail? (t.dropWhile inSegment)).map fun (package, name) =>
        ('.' :: c :: t.takeWhile inSegment ++ package, name)
    else if isAsciiUpper c then
      (longestName? (t.dropWhile inClassName).head? (c :: t.takeWhile inClassName).reverse).map
        fun name => ([], name)
    else none
  | _ => none
termination_by t => t.length
decreasing_by
  have := (List.dropWhile_sublist inSegment (l := t)).length_le
  simp only [List.length_cons]
  omega

/-- The packages whose classes are written out in decompiled code. -/
def rootPackages : List Text := [text "java", text "javax"]

/-- The finder of qualified class names. -/
def findQualified : Finder Qualified := fun before t =>
  if before.any isWordChar then none
  else rootPackages.findSome? fun root => do
    let rest ← dropPrefix? root t
    let (package, name) ← packageTail? rest
    let found : Qualified := ⟨root ++ package, name, before.any fun c => c == '.' || isIdentChar c⟩
    return (found.full, found)

/-! ## Declarations -/

/-- The words that introduce a type. -/
def typeWords : List Text := [text "class", text "interface", text "enum"]

/-- A character that can open a declared name. -/
def opensName (c : Char) : Bool := isAsciiUpper c || isAsciiLower c || c == '_' || c == '$'

/-- The declaration that opens with a type word: its text and the name it introduces. -/
def declaredName? (word t : Text) : Option (Text × Text) := do
  let rest ← dropPrefix? word t
  let gap := rest.takeWhile isBlank
  let name := (rest.dropWhile isBlank).takeWhile inClassName
  if gap.isEmpty || !(name.head?.any opensName) then none
  else return (word ++ gap ++ name, name)

/-- The finder of type declarations. -/
def findDeclared : Finder Text := fun before t =>
  if before.any isWordChar then none else typeWords.findSome? fun word => declaredName? word t

end JavaMend.Java
