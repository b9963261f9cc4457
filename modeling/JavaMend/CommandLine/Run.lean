import JavaMend.Build.Decompiler
import JavaMend.CommandLine.Arguments

/-!
# `CommandLine.Run` — what the commands do and say

A command works on a disk and says line by line what it does. It ends with a code: 0, 1 after a fault, 2 for a wrong
command line.

## Contents
- **Faults.** `Fault` with its messages.
- **Outcomes.** `Outcome`, `Progress`, `Work`, `tell`, `act`, `onDisk`, `need`.
- **Settings.** `loadConfig`, `openLog`.
- **Commands.** `runBuild`, `runProcess`, `runPatch`, `runNormalize`, `runPack`, `runUnpack`.
- **Command lines.** `perform`, `execute`.
-/

namespace JavaMend.CommandLine

open JavaMend Text Build

/-! ## Faults -/

/-- Why a command ends with code 1. -/
inductive Fault where
  /-- The log file cannot be made, or the working folder cannot be removed. -/
  | disk (fault : PathFault)
  | noConfig (path : Text)
  | badConfig (path : Text)
  | maxFuzz
  | noOutput
  | file (fault : FileFault)
  | build (fault : BuildFault)
  | patching (fault : PatchFault)
  | decompiler (fault : DecompilerFault)
  /-- Some patches failed. -/
  | patchesFailed
  /-- The formatter failed on so many sources. -/
  | formatFailed (count : Nat)
deriving DecidableEq

/-- The wording of a fault. -/
def Fault.message : Fault → Text
  | .disk fault         => fault.numbered
  | .noConfig path      => text "Failed to read config: " ++ path
  | .badConfig path     => text "Invalid config: " ++ path
  | .maxFuzz            => text "--max-fuzz must be at most 2"
  | .noOutput           => text "--output is required unless --dry-run is given"
  | .file fault         => fault.message
  | .build fault        => fault.message
  | .patching fault     => fault.message
  | .decompiler fault   => fault.message
  | .patchesFailed      => text "Some patches did not apply"
  | .formatFailed count => text "Normalization failed for " ++ ofNat count ++ text " files"

/-! ## Outcomes -/

/-- What came of a command line. -/
structure Outcome where
  code : Nat
  /-- What was said. -/
  lines : List Text
  fault : Option Fault
  disk : Disk

/-- The disk and what was said so far. -/
structure Progress where
  disk : Disk
  lines : List Text

/-- A command at work. -/
abbrev Work (α : Type) := ExceptT Fault (StateM Progress) α

/-- Say a line. -/
def tell (line : Text) : Work Unit := modify fun p => { p with lines := p.lines ++ [line] }

/-- Say a name with a value. -/
def tellValue (name : String) (value : Text) : Work Unit := tell (text "  " ++ text name ++ text ": " ++ value)

/-- Do something to the disk. -/
def act {ε α : Type} (fault : ε → Fault) (a : Action ε α) : Work α := do
  let p ← get
  let (result, d) := a.on p.disk
  set { p with disk := d }
  match result with
  | .ok x    => return x
  | .error e => throw (fault e)

/-- Do something to the disk that cannot fail. -/
def onDisk {α : Type} (a : StateM Disk α) : Work α := do
  let p ← get
  let (x, d) := Id.run (StateT.run a p.disk)
  set { p with disk := d }
  return x

/-- Go on with a result or fail. -/
def need {ε α : Type} (fault : ε → Fault) : Except ε α → Work α
  | .ok x    => return x
  | .error e => throw (fault e)

/-! ## Settings -/

/-- Read the settings in a file, and override those for patches. -/
def loadConfig (dir : Place) (path : Option Text) (o : PatchOverrides) : Work Config := do
  let base ← match path with
    | none      => pure Config.standard
    | some path =>
      match (← get).disk.readText? dir path with
      | none   => throw (.noConfig path)
      | some t => need (fun _ => .badConfig path) (Config.parse t)
  let maxFuzz := o.maxFuzz.getD base.patch.maxFuzz
  if o.maxFuzz.any fun n => 2 < n then throw .maxFuzz
  return { base with patch := { base.patch with
    strip := o.strip.getD base.patch.strip
    maxFuzz := maxFuzz
    lenient := base.patch.lenient || o.lenient } }

/-- Make the log file, if there is to be one; what is in it stays. -/
def openLog (dir : Place) (path : Option Text) : Work Unit := do
  let some path := path | return
  let up := (Disk.parentPath? path).getD []
  if !up.isEmpty then act .disk (Disk.makeFolders dir up)
  let old := ((← get).disk.readFile dir path).toOption.getD []
  act .disk (Action.change fun d => d.writeFile dir path old)

/-! ## Commands -/

/-- What is said about an archive that was written. -/
def tellArchive (dir : Place) (path : Text) : Work Unit := do
  let data := ((← get).disk.readFile dir path).toOption.getD []
  tellValue "Bytes written" (ofNat data.length)
  tellValue "Digest" (hex (Archive.blake3 data))

/-- What is said about a build. -/
def tellBuild (dir : Place) (output : Text) (s : BuildSummary) : Work Unit := do
  tell []
  tell (text "Archive built successfully!")
  tellValue "Sources" (ofNat s.sources)
  tellValue "Resources" (ofNat s.resources)
  tellValue "Files fixed up" (ofNat s.fixedUp)
  tellValue "Patches applied" (ofNat s.patched)
  tellValue "Patches fuzzed" (ofNat s.fuzzed)
  tellValue "Files normalized" (ofNat s.normalized)
  tellArchive dir output

/-- Decompile a tree of classes and build an archive from it. A working folder that was not asked for goes
    afterwards, and so do the decompiler's files in one that was. -/
def runBuild (host : Host.Launcher) (dir : Place) (c : Config) (input engine patches output : Text)
    (style workDir : Option Text) (keep : Bool) : Work Unit := do
  tell (text "Building archive...")
  tellValue "Input" input
  tellValue "Engine" engine
  tellValue "Patches" patches
  tellValue "Output" output
  let folder := workDir.getD (output ++ text ".work")
  let tree ← act .decompiler (decompile host dir c.decompiler input folder engine)
  let request : BuildRequest := ⟨tree, output, some patches, style, if keep then some folder else none⟩
  let summary ← act .build (process host dir c request)
  if !keep then
    match workDir with
    | some _ => modify fun p => { p with disk := removeOutput dir tree p.disk }
    | none   => act .disk (Action.change fun d => d.removeFolder dir folder)
  tellBuild dir output summary

/-- Build an archive from sources. -/
def runProcess (host : Host.Launcher) (dir : Place) (c : Config) (request : BuildRequest) : Work Unit := do
  tell (text "Processing decompiled sources...")
  tellValue "Input" request.input
  tellValue "Output" request.output
  let summary ← act .build (process host dir c request)
  tellBuild dir request.output summary

/-- What is said about a patch. -/
def tellReport (r : Diff.Report) : Work Unit := do
  tellValue (String.ofList r.target.text) r.status.word
  for (id, outcome) in r.numbered do
    if outcome.status ≠ .success then
      tell (text "    hunk " ++ ofNat id ++ text ": " ++ outcome.status.word ++ text " (fuzz " ++ ofNat outcome.fuzz
        ++ text ", level " ++ ofNat outcome.level.rank ++ [')'])

/-- Apply patches to a store. -/
def runPatch (dir : Place) (c : Config) (input patches : Text) (output : Option Text) (dryRun : Bool) :
    Work Unit := do
  if output.isNone && !dryRun then throw .noOutput
  tell (text "Applying patches...")
  tellValue "Input" input
  tellValue "Patches" patches
  let d := (← get).disk
  let s ← need .file (load d dir input)
  let result := patchStore c.patch.options c.patch.strip (patchSource d dir patches) dryRun s
  let run ← need .patching result.1
  for report in run.reports do tellReport report
  for choice in run.unresolved do tell (text "  " ++ choice.message)
  if !dryRun then
    if let some path := output then act .file (save dir path result.2)
  tell []
  tell (text "Patch run finished.")
  tellValue "Succeeded" (ofNat (run.count .success))
  tellValue "Fuzzed" (ofNat (run.count .fuzzed))
  tellValue "Failed" (ofNat (run.count .failed + run.unresolved.length))
  if run.hasFailures then throw .patchesFailed

/-- Normalise a store. -/
def runNormalize (host : Host.Launcher) (dir : Place) (c : Config) (input : Text) (output style : Option Text)
    (dryRun : Bool) : Work Unit := do
  if output.isNone && !dryRun then throw .noOutput
  tell (text "Normalizing sources...")
  tellValue "Input" input
  let s ← need .file (load (← get).disk dir input)
  let (result, normal) ← onDisk (normalizeAll (normalizer host dir c style) dryRun s)
  let summary ← need .build result
  if !dryRun then
    if let some path := output then act .file (save dir path normal)
  tell []
  tell (text "Normalization finished.")
  tellValue "Files" (ofNat summary.files)
  tellValue "Changed" (ofNat summary.changed)
  tellValue "Failed" (ofNat summary.failures.length)
  if !summary.failures.isEmpty then throw (.formatFailed summary.failures.length)

/-- Pack a folder into an archive. -/
def runPack (dir : Place) (folder output : Text) : Work Unit := do
  tell (text "Packing directory...")
  tellValue "Dir" folder
  tellValue "Output" output
  let s ← need .file (load (← get).disk dir folder)
  act .file (save dir output s)
  tell []
  tell (text "Archive packed successfully!")
  tellValue "Entries" (ofNat s.size)
  tellArchive dir output

/-- Unpack an archive into a folder. -/
def runUnpack (dir : Place) (archive folder : Text) : Work Unit := do
  tell (text "Unpacking archive...")
  tellValue "Archive" archive
  tellValue "Dir" folder
  let s ← need .file (load (← get).disk dir archive)
  let written ← act .file (unpack dir folder s)
  tell []
  tell (text "Archive unpacked successfully!")
  tellValue "Files written" (ofNat written)

/-! ## Command lines -/

/-- Perform an invocation. -/
def perform (host : Host.Launcher) (dir : Place) (g : Globals) (i : Invocation) : Work Unit := do
  openLog dir g.logFile
  match i with
  | .run input engine patches output style workDir keep o => do
    let c ← loadConfig dir g.config o
    runBuild host dir c input engine patches output style workDir keep
  | .process input output patches style keep o => do
    let c ← loadConfig dir g.config o
    runProcess host dir c ⟨input, output, patches, style, keep⟩
  | .patch input patches output dryRun o => do
    let c ← loadConfig dir g.config o
    runPatch dir c input patches output dryRun
  | .normalize input output style dryRun => do
    let c ← loadConfig dir g.config .none
    runNormalize host dir c input output style dryRun
  | .pack folder output => runPack dir folder output
  | .unpack archive folder => runUnpack dir archive folder

/-- Run a command line in a folder. -/
def execute (host : Host.Launcher) (dir : Place) (d : Disk) (args : List Text) : Outcome :=
  match parse args with
  | .usage      => ⟨2, [], none, d⟩
  | .help       => ⟨0, usageLines, none, d⟩
  | .invoke g i =>
    match Id.run (StateT.run (perform host dir g i).run ⟨d, []⟩) with
    | (.ok (), p)    => ⟨0, p.lines, none, p.disk⟩
    | (.error e, p)  => ⟨1, p.lines, some e, p.disk⟩

end JavaMend.CommandLine
