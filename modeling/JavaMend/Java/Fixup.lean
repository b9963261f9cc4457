import JavaMend.Text.Lines
import JavaMend.Text.Words

/-!
# `Java.Fixup` — first repairs of decompiled text

Line by line: calls of the superclass constructor without arguments go, decimal fractions lose their trailing zeros,
inner classes of the file's own class are written with a dot, and members of an interface lose a redundant
`abstract`.

## Contents
- **Lines that go.** `isEmptySuper`.
- **Fractions.** `trimFraction?`, `findFraction`, `trimZeros`.
- **Inner classes.** `qualifyInner`.
- **Interfaces.** `isInterfaceLine`, `dropAbstract`.
- **Files.** `FixupOptions`, `fixLine`, `fixup`.
-/

namespace JavaMend.Java

open JavaMend Text

/-! ## Lines that go -/

/-- The line is a call of the superclass constructor without arguments. -/
def isEmptySuper (line : Text) : Bool := trim line == text "super();"

/-! ## Fractions -/

/-- A suffix of type or the mark of an exponent. -/
def isSuffix (c : Char) : Bool :=
  c == 'D' || c == 'd' || c == 'F' || c == 'f' || c == 'E' || c == 'e'

/-- The suffix after a fraction, if a word boundary follows it; without suffix the fraction itself must end at one. -/
def fractionEnd? : Text → Option Text
  | []     => some []
  | c :: t =>
    if isSuffix c then if isBoundary (some c) t.head? then some [c] else none
    else if isWordChar c then none else some []

/-- A fraction with trailing zeros at the start of a text: its text and the text without these zeros. The digits
    after the point are not all zeros. -/
def trimFraction? (t : Text) : Option (Text × Text) := do
  let whole := t.takeWhile isAsciiDigit
  let rest ← dropPrefix? ['.'] (t.dropWhile isAsciiDigit)
  let digits := rest.takeWhile isAsciiDigit
  let kept := (digits.reverse.dropWhile (· == '0')).reverse
  let suffix ← fractionEnd? (rest.dropWhile isAsciiDigit)
  if whole.isEmpty || kept.isEmpty || kept.length == digits.length then none
  else return (whole ++ '.' :: digits ++ suffix, whole ++ '.' :: kept ++ suffix)

/-- The finder of fractions with trailing zeros. -/
def findFraction : Finder Text := fun before t => if before.any isWordChar then none else trimFraction? t

/-- Trim the trailing zeros of fractions. -/
def trimZeros (line : Text) : Text := substitute findFraction (fun _ short => short) line

/-! ## Inner classes -/

/-- A letter or an underscore: what opens the name of a named inner class. -/
def opensInner (t : Text) : Bool := t.head?.any fun c => isLetter c || c == '_'

/-- Write the named inner classes of a class with a dot. `before` is the character before the text, none after an
    occurrence of the class name. -/
def qualifyInner (className : Text) (before : Option Char) : Text → Text
  | []     => []
  | c :: t =>
    match dropPrefix? (className ++ ['$']) (c :: t) with
    | some rest =>
      -- The class name must not go on from a longer name, and a digit opens no named class.
      let named := !before.any isIdentChar && opensInner rest
      className ++ (if named then '.' else '$') :: qualifyInner className none (t.drop className.length)
    | none => c :: qualifyInner className (some c) t
termination_by t => t.length
decreasing_by all_goals (simp only [List.length_cons, List.length_drop]; omega)

/-! ## Interfaces -/

/-- What follows a word and the white space after it. -/
def afterWord? (word t : Text) : Option Text := do
  let rest ← dropPrefix? word t
  if rest.head?.any isBlank then return trimStart rest else none

/-- What follows an optional word and the white space after it. -/
def skipWord (word t : Text) : Text := (afterWord? word t).getD t

/-- The line opens an interface declaration. -/
def isInterfaceLine (line : Text) : Bool :=
  (afterWord? (text "interface") (skipWord (text "abstract") (skipWord (text "public") (trimStart line)))).isSome

/-- Drop `abstract` from an indented line, where only `public` may precede it. -/
def dropAbstract (line : Text) : Text :=
  let indented := trimStart line
  let rest := skipWord (text "public") indented
  match afterWord? (text "abstract") rest with
  | some member =>
    if line.head?.any isBlank then line.take (line.length - rest.length) ++ member else line
  | none => line

/-! ## Files -/

/-- How files are fixed up. -/
structure FixupOptions where
  /-- Drop `abstract` from the members of interfaces. -/
  fixInterfaces : Bool
deriving DecidableEq, Repr

/-- Fix up one line of a file that holds the class `className`. -/
def fixLine (className : Text) (isInterface : Bool) (line : Text) : Text :=
  let fixed := qualifyInner className none (trimZeros (trimEnd line))
  if isInterface then dropAbstract fixed else fixed

/-- Fix up a text that is kept under the given file name. -/
def fixup (o : FixupOptions) (fileName t : Text) : Text :=
  let className := (dropSuffix? (text ".java") fileName).getD fileName
  let isInterface := o.fixInterfaces && (lines t).any isInterfaceLine
  unlines (((lines t).filter fun l => !isEmptySuper l).map (fixLine className isInterface)) (endsWithNewline t)

end JavaMend.Java
