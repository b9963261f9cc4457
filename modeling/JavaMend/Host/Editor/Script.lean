import JavaMend.Host.Pattern.Expression

/-!
# `Host.Editor.Script` — scripts that edit streams line by line

A script is a row of steps. Each line of the input is laid into a workspace, goes through the steps that are meant for
it, and is written out. A step says for which lines it is meant, and what is done.

## Contents
- **Patterns.** `Pattern`, `Pattern.haystack`.
- **Lines.** `Spot`, `Until`, `Scope`.
- **Substitutions.** `CaseChange`, `Piece`, `Substitution`.
- **Steps.** `Deed`, `Step`, `Script`, `Script.target`.
-/

namespace JavaMend.Host.Editor

open JavaMend Text

/-! ## Patterns -/

/-- An expression, and how it is looked for. -/
structure Pattern where
  re : Re
  /-- How many groups it has. -/
  groups : Nat
  folds : Bool
  byLine : Bool

/-- A text as it is searched for the pattern. -/
def Pattern.haystack (p : Pattern) (t : Text) : Haystack := ⟨t.toArray, p.folds, p.byLine⟩

/-! ## Lines -/

/-- What a line is recognized by. -/
inductive Spot where
  | line (n : Nat)
  /-- Every so many lines from one on. -/
  | every (first step : Nat)
  | last
  /-- A pattern; none is the one that was looked for last. -/
  | fits (p : Option Pattern)

/-- Where a range of lines ends. -/
inductive Until where
  | spot (s : Spot)
  /-- So many lines later. -/
  | further (n : Nat)
  /-- At the next line whose number is a multiple. -/
  | multiple (n : Nat)

/-- The lines for which a step is meant: all, those at a spot, those of ranges, or the others. -/
structure Scope where
  start : Option Spot
  stop : Option Until
  negated : Bool

/-- The scope of all lines. -/
def Scope.all : Scope := ⟨none, none, false⟩

/-- The range begins before the first line. -/
def Scope.beginsAtOnce (s : Scope) : Bool := match s.start with
  | some (.line 0) => true
  | _              => false

/-! ## Substitutions -/

/-- What becomes of the case of letters. -/
inductive CaseChange where
  | keep
  | upper
  | lower
deriving DecidableEq

/-- A letter in another case. -/
def CaseChange.apply : CaseChange → Char → Char
  | .keep,  c => c
  | .upper, c => c.toUpper
  | .lower, c => c.toLower

/-- A part of a replacement. -/
inductive Piece where
  | chars (t : Text)
  /-- What a group has matched; group 0 is the whole match. -/
  | group (n : Nat)
  /-- From here on letters are in a case. -/
  | cased (c : CaseChange)
  /-- The next letter is in a case. -/
  | next (c : CaseChange)
deriving DecidableEq

/-- Matches that are replaced. -/
structure Substitution where
  pattern : Option Pattern
  pieces : List Piece
  /-- All matches are replaced from that one on. -/
  all : Bool
  /-- The number of the first match that is replaced. -/
  number : Nat
  /-- The result is printed before it is run as a command. -/
  printsFirst : Bool
  prints : Bool
  runs : Bool
  file : Option Text

/-- The greatest group that a replacement asks for. -/
def Substitution.greatest (s : Substitution) : Nat :=
  s.pieces.foldl (fun n p => match p with
    | .group m => max n m
    | _        => n) 0

/-! ## Steps -/

/-- When a step goes on somewhere else. -/
inductive Condition where
  | always
  /-- Something was replaced since the last line was read or the last such jump. -/
  | replaced
  | notReplaced
deriving DecidableEq

/-- What a step does. -/
inductive Deed where
  /-- The steps up to the one with this number are only for the lines in the scope. -/
  | enter (stop : Nat)
  | leave
  | label
  | jump (c : Condition) (label : Text)
  | substitute (s : Substitution)
  | replaceChars (pairs : List (Char × Char))
  /-- Print a text behind the line. -/
  | addAfter (t : Text)
  | addBefore (t : Text)
  /-- Print a text in the place of the line. -/
  | putInstead (t : Text)
  | delete
  | deleteFirst
  | print
  | printFirst
  | next
  | join
  | copyOut
  | appendOut
  | copyIn
  | appendIn
  | exchange
  | clear
  | number
  | fileName
  | show (width : Option Nat)
  | quit (code : Nat) (prints : Bool)
  | addFile (file : Text)
  | addLine (file : Text)
  | write (file : Text)
  | writeFirst (file : Text)
  /-- Run a command: the given one, or what is in the workspace. -/
  | run (command : Option Text)

/-- A step. -/
structure Step where
  scope : Scope
  deed : Deed

/-- A script: its steps, and the labels with the numbers of their steps. -/
structure Script where
  steps : Array Step
  labels : List (Text × Nat)
  /-- Lines are only printed where a step says so. -/
  quiet : Bool

/-- The step at which a jump goes on; without a label it goes to the end. -/
def Script.target (s : Script) (label : Text) : Nat := (s.labels.lookup label).getD s.steps.size

theorem Script.target_of_unlabelled {s : Script} {label : Text} (h : s.labels.lookup label = none) :
    s.target label = s.steps.size := by
  simp [target, h]

end JavaMend.Host.Editor
