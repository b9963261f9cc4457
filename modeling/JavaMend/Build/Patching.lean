import JavaMend.Archive.Files
import JavaMend.Diff.Candidates
import JavaMend.Diff.Fragments
import JavaMend.Diff.Parser

/-!
# `Build.Patching` — the patch stage

The patches for a store come from one file, all of whose sections are applied in order, or from a folder, of each of
whose groups one candidate is applied. A trial run goes on after failures and lists them; otherwise the first failure
ends the run, unless the options are lenient.

## Contents
- **Sources.** `PatchFile`, `patchFiles`, `PatchSource`, `patchSource`.
- **Faults.** `PatchFault` with its messages.
- **Groups.** `folderGroups`.
- **Runs.** `PatchRun`, `record`, `applySections`, `applyGroups`, `patchStore`.
-/

namespace JavaMend.Build

open JavaMend Text Diff

/-! ## Sources -/

/-- A patch file as it was found. -/
structure PatchFile where
  name : Text
  path : Text
  data : Bytes
deriving DecidableEq

/-- Where patches come from. -/
inductive PatchSource where
  /-- Nothing is at the path. -/
  | nothing (path : Text)
  | single (file : PatchFile)
  | folder (groups : List (List PatchFile))
deriving DecidableEq

/-- The files directly in a folder, in the order of their names; `path` is that of the folder. -/
def patchFiles (d : Disk) (p : Place) (path : Text) : List PatchFile :=
  (d.children p).filterMap fun (name, item) =>
    match item with
    | .file data _ => some ⟨name, Disk.joinPath path name, data⟩
    | _            => none

/-- The patch source that a path leads to. -/
def patchSource (d : Disk) (dir : Place) (path : Text) : PatchSource :=
  match d.find dir path with
  | .ok (p, .file data _) => .single ⟨(p.getLast?).getD [], path, data⟩
  | .ok (p, .folder)      =>
    let files := patchFiles d p path
    .folder ((groups (files.map (·.name))).map fun g =>
      g.names.filterMap fun name => files.find? fun f => f.name == name)
  | _                     => .nothing path

/-! ## Faults -/

/-- Why the patch stage ends early. -/
inductive PatchFault where
  | noSource (path : Text)
  /-- There is no folder at this path. -/
  | noFolder (path : Text)
  /-- The file at this path is no text. -/
  | unreadable (path : Text)
  /-- The file at this path is no diff. -/
  | malformed (path : Text) (error : ParseError)
  | failed (report : Report)
  | unresolved (choice : Unresolved)
deriving DecidableEq

/-- The wording of a fault: what was being done, where that is known. -/
def PatchFault.message : PatchFault → Text
  | .noSource path      => text "Patch source not found: " ++ path
  | .noFolder path      => text "Failed to read patch directory " ++ path
  | .unreadable path    => text "Failed to read patch: " ++ path
  | .malformed path _   => text "Failed to parse patch: " ++ path
  | .failed report      => report.failureMessage
  | .unresolved choice  => choice.message

/-! ## Groups -/

/-- The groups of the files in the folder that a path leads to. A file holds none. -/
def folderGroups (d : Disk) (dir : Place) (path : Text) : Except PatchFault (List Group) :=
  match d.find dir path with
  | .error _     => .error (.noFolder path)
  | .ok (p, _)   => .ok (groups ((patchFiles d p path).map (·.name)))

/-! ## Runs -/

/-- What the patch stage did. -/
structure PatchRun where
  reports : List Report
  /-- Groups none of whose candidates applies; only a trial run has them. -/
  unresolved : List Unresolved
deriving DecidableEq

namespace PatchRun

/-- The run that did nothing. -/
def empty : PatchRun := ⟨[], []⟩

/-- How many patches ended with a status. -/
def count (r : PatchRun) (status : Status) : Nat := r.reports.countP fun report => report.status == status

/-- A patch failed, or no candidate of a group applied. -/
def hasFailures (r : PatchRun) : Bool := !r.unresolved.isEmpty || 0 < r.count .failed

end PatchRun

/-- How a patch run goes on. -/
structure Policy where
  options : Options
  /-- Go on after failures. -/
  collect : Bool
deriving DecidableEq

/-- Add a report to a run; a failed one ends it where failures count. -/
def record (policy : Policy) (run : PatchRun) (report : Report) : Except PatchFault PatchRun :=
  if !policy.collect && !policy.options.lenient && report.status == .failed then .error (.failed report)
  else .ok { run with reports := run.reports ++ [report] }

/-- Apply the sections of a diff in order. The store holds what was applied even if the run ends early. -/
def applySections (policy : Policy) : List Patch → PatchRun → Store → Except PatchFault PatchRun × Store
  | [],      run, s => (.ok run, s)
  | p :: ps, run, s =>
    let applied := apply policy.options p s
    match record policy run applied.1 with
    | .error fault => (.error fault, applied.2)
    | .ok run      => applySections policy ps run applied.2

/-- The text of a patch file. -/
def PatchFile.text (f : PatchFile) : Except PatchFault Text :=
  match ofUtf8? f.data with
  | some t => .ok t
  | none   => .error (.unreadable f.path)

/-- The candidate in a file. -/
def PatchFile.candidate (strip : Nat) (f : PatchFile) : Except PatchFault Candidate := do
  let patch ← (parse (← f.text) strip).mapError (.malformed f.path)
  return ⟨f.name, patch⟩

/-- Apply one candidate of each group. -/
def applyGroups (policy : Policy) (strip : Nat) :
    List (List PatchFile) → PatchRun → Store → Except PatchFault PatchRun × Store
  | [],      run, s => (.ok run, s)
  | g :: gs, run, s =>
    match g.mapM (PatchFile.candidate strip) with
    | .error fault   => (.error fault, s)
    | .ok candidates =>
      match resolve policy.options candidates s with
      | .ok (resolution, s) =>
        match record policy run resolution.report with
        | .error fault => (.error fault, s)
        | .ok run      => applyGroups policy strip gs run s
      | .error choice =>
        if policy.collect then
          applyGroups policy strip gs { run with unresolved := run.unresolved ++ [choice] } s
        else (.error (.unresolved choice), s)

/-- Apply the patches of a source. -/
def applySource (policy : Policy) (strip : Nat) (source : PatchSource) (s : Store) :
    Except PatchFault PatchRun × Store :=
  match source with
  | .nothing path => (.error (.noSource path), s)
  | .single file  =>
    match file.text with
    | .error fault => (.error fault, s)
    | .ok t        =>
      match parseAll t strip with
      | .error error => (.error (.malformed file.path error), s)
      | .ok patches  => applySections policy patches .empty s
  | .folder gs    => applyGroups policy strip gs .empty s

/-- The patch stage. A trial run leaves the store as it is. -/
def patchStore (o : Options) (strip : Nat) (source : PatchSource) (trial : Bool) (s : Store) :
    Except PatchFault PatchRun × Store :=
  let result := applySource ⟨o, trial⟩ strip source s
  if trial then (result.1, s) else result

end JavaMend.Build
