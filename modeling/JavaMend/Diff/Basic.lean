import JavaMend.Store.Key

/-!
# `Diff.Basic` — patches

A patch edits one target by hunks. A hunk lists the lines it expects (context and removed lines: its before image)
and the lines it leaves (context and added lines: its after image), and says where both stand.

## Contents
- `LineKind`, `HunkLine`, `Range`, `Hunk` with `before` and `after`, `Patch` with `createsFile`.
- `length_before`, `length_after`: how many lines the images of a hunk have.
-/

namespace JavaMend.Diff

open JavaMend

/-- What a line of a hunk says about its text. -/
inductive LineKind where
  /-- It is there and stays. -/
  | context
  /-- It is there and goes. -/
  | remove
  /-- It is not there and comes. -/
  | add
deriving DecidableEq, Repr

namespace LineKind

/-- Lines that a line of this kind contributes to the before image. -/
def oldCount : LineKind → Nat
  | context => 1
  | remove  => 1
  | add     => 0

/-- Lines that a line of this kind contributes to the after image. -/
def newCount : LineKind → Nat
  | context => 1
  | remove  => 0
  | add     => 1

end LineKind

/-- A line of a hunk. -/
structure HunkLine where
  kind : LineKind
  text : Text
deriving DecidableEq, Repr

/-- A range of lines as a hunk header declares it; the first line of a text is line 1. -/
structure Range where
  start : Nat
  length : Nat
deriving DecidableEq, Repr

/-- One contiguous edit. -/
structure Hunk where
  /-- Where the before image stands. -/
  old : Range
  /-- Where the after image will stand. -/
  new : Range
  lines : List HunkLine
deriving DecidableEq, Repr

namespace Hunk

/-- The lines that the target must hold. -/
def before (h : Hunk) : List Text := (h.lines.filter fun l => l.kind != .add).map (·.text)

/-- The lines that take their place. -/
def after (h : Hunk) : List Text := (h.lines.filter fun l => l.kind != .remove).map (·.text)

/-- The hunk only adds lines, at the top of an empty text. -/
def createsFile (h : Hunk) : Bool := h.old.start == 0 && h.old.length == 0

end Hunk

/-- The before image has one line for each line of the hunk that is not added. -/
theorem length_before (h : Hunk) : h.before.length = h.lines.countP fun l => l.kind != .add := by
  rw [Hunk.before, List.length_map, List.countP_eq_length_filter]

/-- The after image has one line for each line of the hunk that is not removed. -/
theorem length_after (h : Hunk) : h.after.length = h.lines.countP fun l => l.kind != .remove := by
  rw [Hunk.after, List.length_map, List.countP_eq_length_filter]

/-- The edits of one target. -/
structure Patch where
  target : Key
  hunks : List Hunk
deriving DecidableEq

/-- Every hunk only adds lines at the top of an empty text, so that the target need not exist. -/
def Patch.createsFile (p : Patch) : Bool := !p.hunks.isEmpty && p.hunks.all Hunk.createsFile

end JavaMend.Diff
