import JavaMend.Java.Qualified
import JavaMend.Text.Order

/-!
# `Java.Imports` — the import block

A Java text opens with a package clause, imports and comments. Its import region runs from the first import line there
to the last. Repairing shortens qualified names in the text below the region, adds the imports that they need, drops
imports that say nothing, and writes the imports as one sorted block.

## Contents
- **Targets.** `importTarget?`, `simpleName`, `packageOf`, `isRedundant`.
- **Layout.** `Layout`, `layout`, `Layout.imports`.
- **Import blocks.** `insertTarget`, `block`, `rebuild`.
- **Shortening.** `Bindings`, `usable`, `shorten`.
- **Repair.** `ensureImport`, `fixImports`.
-/

namespace JavaMend.Java

open JavaMend Text

/-! ## Targets -/

/-- What a line imports. -/
def importTarget? (line : Text) : Option Text := do
  let rest ← dropPrefix? (text "import ") (trim line)
  let target ← dropSuffix? [';'] rest
  return trim target

/-- The package that a line declares. -/
def packageClause? (line : Text) : Option Text := do
  let rest ← dropPrefix? (text "package ") (trim line)
  let name ← dropSuffix? [';'] rest
  return trim name

/-- The part of a dotted name after its last dot. -/
def simpleName (target : Text) : Text := (target.reverse.takeWhile (· != '.')).reverse

/-- The part of a dotted name before its last dot; nothing for a name without one. -/
def packageOf (target : Text) : Text := ((target.reverse.dropWhile (· != '.')).drop 1).reverse

/-- A static import. -/
def isStatic (target : Text) : Bool := startsWith (text "static ") target

/-- An import of a whole package. -/
def isWildcard (target : Text) : Bool := endsWith (text ".*") target

/-- An import that adds nothing: of a class of `java.lang` or of the text's own package. -/
def isRedundant (package : Option Text) (target : Text) : Bool :=
  !isStatic target && !isWildcard target
    && (packageOf target == text "java.lang" || some (packageOf target) == package)

/-! ## Layout -/

/-- A line that may stand between the package clause and the imports: blank, or part of a comment by its looks. -/
def isHeaderNoise (line : Text) : Bool :=
  isBlankLine line || startsWith (text "//") (trim line) || startsWith (text "/*") (trim line)
    || startsWith ['*'] (trim line)

/-- A line imports something. -/
def isImport (line : Text) : Bool := (importTarget? line).isSome

/-- A line may stand in the header of a text. -/
def isHeaderLine (line : Text) : Bool := (packageClause? line).isSome || isImport line || isHeaderNoise line

/-- The lines of a text before, in and after its import region, and the package it declares. The region is empty if
    there is none, and then all lines come after it. -/
structure Layout where
  package : Option Text
  head : List Text
  region : List Text
  body : List Text
deriving DecidableEq, Repr

/-- The layout of the lines of a text. -/
def layoutLines (ls : List Text) : Layout :=
  let header := ls.takeWhile isHeaderLine
  let rest := ls.dropWhile isHeaderLine
  let package := (header.filterMap packageClause?).getLast?
  if header.any isImport then
    let head := header.takeWhile fun l => !isImport l
    let fromFirst := header.dropWhile fun l => !isImport l
    let tail := (fromFirst.reverse.takeWhile fun l => !isImport l).reverse
    let region := (fromFirst.reverse.dropWhile fun l => !isImport l).reverse
    ⟨package, head, region, tail ++ rest⟩
  else ⟨package, [], [], ls⟩

/-- The layout of a text. -/
def layout (t : Text) : Layout := layoutLines (splitOn '\n' t)

/-- The lines of the header up to the end of the region. -/
def Layout.upToRegion (l : Layout) : List Text := l.head ++ l.region

/-- The targets imported in the region, as they stand, with single spaces between words. -/
def Layout.imports (l : Layout) : List Text :=
  (l.region.filterMap importTarget?).map fun target => joinWith [' '] (words target)

/-- A layout keeps every line in its place. -/
theorem layoutLines_lines (ls : List Text) :
    (layoutLines ls).head ++ (layoutLines ls).region ++ (layoutLines ls).body = ls := by
  unfold layoutLines
  simp only
  split
  · rw [List.append_assoc, ← List.append_assoc (List.reverse _), ← List.reverse_append,
      List.takeWhile_append_dropWhile, List.reverse_reverse, ← List.append_assoc,
      List.takeWhile_append_dropWhile, List.takeWhile_append_dropWhile]
  · simp

/-! ## Import blocks -/

/-- Static imports come after the others; within a kind the order is that of the texts. -/
def targetLt (a b : Text) : Bool :=
  if isStatic a == isStatic b then before a b else !isStatic a

/-- Put a target in its place among sorted ones, unless it is there. -/
def insertTarget (target : Text) : List Text → List Text
  | []      => [target]
  | u :: us => if target = u then u :: us else if targetLt target u then target :: u :: us
               else u :: insertTarget target us

/-- Targets in order, each once. -/
def sortTargets (targets : List Text) : List Text := targets.foldr insertTarget []

/-- The lines of an import block. -/
def block (targets : List Text) : List Text :=
  (sortTargets targets).map fun target => text "import " ++ target ++ [';']

theorem mem_insertTarget {t u : Text} {ts : List Text} : u ∈ insertTarget t ts ↔ u = t ∨ u ∈ ts := by
  induction ts with
  | nil => simp [insertTarget]
  | cons x xs ih =>
    unfold insertTarget
    split
    · rename_i h
      subst h
      simp
    · split
      · simp
      · simp only [List.mem_cons, ih]
        exact ⟨fun h => by rcases h with h | h | h <;> simp [h], fun h => by rcases h with h | h | h <;> simp [h]⟩

/-- Sorting keeps the targets. -/
theorem mem_sortTargets {u : Text} {ts : List Text} : u ∈ sortTargets ts ↔ u ∈ ts := by
  induction ts with
  | nil => simp [sortTargets]
  | cons t ts ih =>
    simp only [sortTargets, List.foldr_cons] at ih ⊢
    rw [mem_insertTarget, ih, List.mem_cons]

/-- Split the lines of a text without import region after its first package clause. -/
def splitAtPackage (ls : List Text) : List Text × List Text :=
  let opens := fun l => startsWith (text "package ") (trim l)
  if ls.any opens then
    (ls.takeWhile (fun l => !opens l) ++ (ls.dropWhile fun l => !opens l).take 1,
      (ls.dropWhile fun l => !opens l).drop 1)
  else ([], ls)

/-- Drop blank lines at the end. -/
def dropBlankEnd (ls : List Text) : List Text := (ls.reverse.dropWhile isBlankLine).reverse

/-- Write a text with the given imports for its region. Other lines found in the region open the body. The parts are
    separated by one blank line each. -/
def rebuild (l : Layout) (targets : List Text) (terminated : Bool) : Text :=
  let cut := if l.region.isEmpty then splitAtPackage l.body else (l.head, l.body)
  -- Whatever else stood among the imports is kept, below them.
  let strays := l.region.filter fun line => !isBlankLine line && !isImport line
  let body := if terminated && cut.2.getLast? == some [] then cut.2.dropLast else cut.2
  let sections := [dropBlankEnd cut.1, block targets, strays, body.dropWhile isBlankLine]
  let shown := (sections.filter fun s => !s.isEmpty).map (joinWith ['\n'])
  joinWith (text "\n\n") shown ++ (if terminated then ['\n'] else [])

/-! ## Shortening -/

/-- The greater of two texts. -/
def later (a b : Text) : Text := if atMost a b then b else a

/-- The simple names that a text binds: those that it declares and those that it imports. -/
structure Bindings where
  declared : List Text
  imported : List Text
deriving DecidableEq, Repr

/-- The import that binds a simple name; of several the one that comes last in text order. -/
def Bindings.importOf? (b : Bindings) (name : Text) : Option Text :=
  match b.imported.filter fun t => !isStatic t && !isWildcard t && simpleName t == name with
  | []      => none
  | t :: ts => some (ts.foldl later t)

/-- The simple name can stand for the qualified one: nothing else is called so. -/
def Bindings.admits (b : Bindings) (q : Qualified) : Bool :=
  !b.declared.contains q.name && (b.importOf? q.name).all fun t => t == q.full

/-- The qualified name can be shortened in a text where all of `seen` occur. -/
def usable (b : Bindings) (seen : List Qualified) (q : Qualified) : Bool :=
  !q.joined && (seen.all fun r => r.name != q.name || r.full == q.full) && b.admits q

/-- The qualified names in the code of a text. -/
def qualifiedNames (body : Text) : List Qualified := collectCode (hits findQualified) body

/-- Shorten the qualified names of a text where that is clear; also the names that are now to be imported. -/
def shorten (b : Bindings) (body : Text) : Text × List Text :=
  let seen := qualifiedNames body
  let short := mapCode
    (substitute findQualified fun found q => if usable b seen q then q.name else found) body
  (short, (seen.filter (usable b seen)).map Qualified.full)

/-! ## Repair -/

/-- Add an import, unless it is redundant or there. -/
def ensureImport (t target : Text) : Text :=
  let l := layout t
  if isRedundant l.package target || l.imports.contains target then t
  else rebuild l (target :: l.imports) (t.getLast? == some '\n')

/-- Repair the imports of a text. -/
def fixImports (t : Text) : Text :=
  let l := layout t
  let top := joinWith ['\n'] l.upToRegion
  let body := joinWith ['\n'] l.body
  let bindings : Bindings := ⟨hits findDeclared body ++ hits findDeclared top, l.imports⟩
  let (short, inlined) := shorten bindings body
  let targets := (l.imports ++ inlined).filter fun target => !isRedundant l.package target
  if l.region.isEmpty && short == body then t
  else
    -- The body may have changed, so the layout is taken anew.
    let shortened := if l.region.isEmpty then short else top ++ '\n' :: short
    rebuild (layout shortened) targets (t.getLast? == some '\n')

end JavaMend.Java
