import JavaMend.Build.Patching
import JavaMend.Config
import JavaMend.Host.Command
import JavaMend.Normalizer

/-!
# `Build.Process` — from decompiled sources to an archive

A store is loaded, fixed up, patched, normalised and saved. Snapshots of the store after fix-up and after patching can
be kept.

## Contents
- **Faults.** `BuildFault` with its messages.
- **Requests.** `BuildRequest`, `BuildSummary`.
- **Stages.** `normalizer`, `normalizeAll`, `snapshotPath`, `patchStage`, `process`.
-/

namespace JavaMend.Build

open JavaMend Text Diff

/-! ## Faults -/

/-- Why a build ends without result. -/
inductive BuildFault where
  | file (fault : FileFault)
  | patching (fault : PatchFault)
  /-- The formatter failed on so many of the sources. -/
  | normalizing (failed files : Nat)
deriving DecidableEq

/-- The wording of a fault. -/
def BuildFault.message : BuildFault → Text
  | .file fault        => fault.message
  | .patching fault    => fault.message
  | .normalizing failed files =>
    text "Normalization failed for " ++ ofNat failed ++ text " of " ++ ofNat files ++ text " files"

/-! ## Requests -/

/-- What is to be built. -/
structure BuildRequest where
  input : Text
  output : Text
  /-- The patch file or folder. -/
  patches : Option Text
  /-- The style file of the formatter. -/
  style : Option Text
  /-- The folder for snapshots. -/
  keep : Option Text

/-- What was built. -/
structure BuildSummary where
  sources : Nat
  resources : Nat
  fixedUp : Nat
  patched : Nat
  fuzzed : Nat
  normalized : Nat
deriving DecidableEq, Repr

/-! ## Stages -/

/-- The normaliser of a configuration. -/
def normalizer (host : Host.Launcher) (dir : Place) (c : Config) (style : Option Text) : Normalizer where
  constants := c.constantTable
  renames := c.renameTable
  formatter := match c.formatter.program with
    | none         => .keep
    | some program =>
      Host.formatterOf host dir program c.formatter.args style (1000 * c.formatter.timeoutSecs)

/-- Normalise a store; unless this is a trial, a failure on any source is a fault. The store holds what was normalised
    even then. -/
def normalizeAll (n : Normalizer) (trial : Bool) (s : Store) :
    StateM Disk (Except BuildFault Normalizer.Summary × Store) := do
  let (normal, summary) ← n.normalizeStore s
  return (if !trial && !summary.failures.isEmpty then .error (.normalizing summary.failures.length summary.files)
    else .ok summary, normal)

/-- The path of the snapshot of a stage: named for the input, in the folder for snapshots. -/
def snapshotPath (folder input : Text) (stage : Text) : Text :=
  let name := (Disk.fileName? input).getD (text "archive")
  Disk.joinPath folder (name ++ '.' :: stage ++ text ".dsar")

/-- Keep a snapshot of a stage, if that is asked for. -/
def snapshot (dir : Place) (request : BuildRequest) (stage : Text) (s : Store) : Action BuildFault Unit := do
  match request.keep with
  | none        => return
  | some folder => (save dir (snapshotPath folder request.input stage) s).mapFault .file

/-- The patch stage of a build: the patched store and what was done. -/
def patchStage (dir : Place) (c : Config) (request : BuildRequest) (s : Store) :
    Action BuildFault (Store × PatchRun) := do
  match request.patches with
  | none      => return (s, .empty)
  | some path =>
    let source := patchSource (← get) dir path
    let result := patchStore c.patch.options c.patch.strip source false s
    let run ← Action.ofExcept (result.1.mapError BuildFault.patching)
    snapshot dir request (text "patched") result.2
    return (result.2, run)

/-- Build an archive. -/
def process (host : Host.Launcher) (dir : Place) (c : Config) (request : BuildRequest) :
    Action BuildFault BuildSummary := do
  let loaded ← Action.ofExcept ((load (← get) dir request.input).mapError BuildFault.file)
  let (fixed, fixedUp) := fixupStore c.fixup loaded
  snapshot dir request (text "fixed") fixed
  let (patched, run) ← patchStage dir c request fixed
  let (result, normal) ← normalizeAll (normalizer host dir c request.style) false patched
  let summary ← Action.ofExcept result
  (save dir request.output normal).mapFault .file
  return {
    sources := loaded.sourceCount
    resources := loaded.size - loaded.sourceCount
    fixedUp := fixedUp
    patched := run.reports.length
    fuzzed := run.count .fuzzed
    normalized := summary.changed }

end JavaMend.Build
