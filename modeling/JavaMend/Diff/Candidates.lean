import JavaMend.Diff.Engine

/-!
# `Diff.Candidates` — choosing among patches

Several patches may be meant for one target, each for another state of it. The first one that applies without a failed
hunk is taken.

## Contents
- `Candidate`, `Resolution`, `Unresolved`.
- `select`: the candidates that fail and the first that does not.
- `resolve`.
-/

namespace JavaMend.Diff

open JavaMend Text

/-- A patch with the name under which it was loaded. -/
structure Candidate where
  id : Text
  patch : Patch
deriving DecidableEq

/-- Which candidate was taken, its report, and the candidates before it with theirs. -/
structure Resolution where
  selected : Text
  report : Report
  rejected : List (Text × Report)
deriving DecidableEq

/-- No candidate applies. -/
structure Unresolved where
  /-- The target of the first candidate. -/
  target : Text
  attempted : List Text
deriving DecidableEq

/-- The wording of a choice without result. -/
def Unresolved.message (u : Unresolved) : Text :=
  text "no applicable patch for " ++ u.target ++ text " (attempted: " ++ joinWith (text ", ") u.attempted
    ++ [')']

/-- The candidates that fail, with their reports, and the first one that does not. -/
def select (o : Options) (s : Store) : List Candidate → List (Text × Report) × Option Candidate
  | []      => ([], none)
  | c :: cs =>
    let report := (probe o c.patch s).1
    if report.status = .failed then
      let later := select o s cs
      ((c.id, report) :: later.1, later.2)
    else ([], some c)

/-- Try candidates in order and apply the first one that does not fail. -/
def resolve (o : Options) (cs : List Candidate) (s : Store) : Except Unresolved (Resolution × Store) :=
  match select o s cs with
  | (rejected, some c) =>
    let applied := apply o c.patch s
    .ok (⟨c.id, applied.1, rejected⟩, applied.2)
  | (_, none) => .error ⟨(cs.head?.map fun c => c.patch.target.text).getD [], cs.map (·.id)⟩

end JavaMend.Diff
