import JavaMend.Build.Process

/-!
# `Build.Decompiler` — running the decompiler

The decompiler is a program on a Java machine. It reads a tree of classes and writes a tree of sources of the same
name into a working folder; what it says is kept in a log beside that tree.

## Contents
- **Faults.** `DecompilerFault` with its messages.
- **Runs.** `engineFlags`, `engineArgs`, `decompile`, `removeOutput`.
-/

namespace JavaMend.Build

open JavaMend Text

/-! ## Faults -/

/-- Why there is no decompiled tree. -/
inductive DecompilerFault where
  | noInput (path : Text)
  | noEngine (path : Text)
  | noFolder (path : Text)
  /-- The input is the root and has no name. -/
  | noName (path : Text)
  | notLaunched (java : Text)
  | noLog (path : Text)
  | ended (exit : Host.Exit) (log : Text)
  /-- It would run forever. -/
  | endless
  | noOutput (path : Text)
deriving DecidableEq

/-- The wording of a fault. -/
def DecompilerFault.message : DecompilerFault → Text
  | .noInput path     => text "Failed to canonicalize input: " ++ path
  | .noEngine path    => text "Decompiler engine not found: " ++ path
  | .noFolder path    => text "Failed to create directory: " ++ path
  | .noName path      => text "Input has no file name: " ++ path
  | .notLaunched java => text "Failed to launch " ++ java
  | .noLog path       => text "Failed to write decompiler log: " ++ path
  | .ended exit log   => text "Decompiler exited with " ++ exit.message ++ text " (see " ++ log ++ [')']
  | .endless          => text "Decompiler does not end"
  | .noOutput path    => text "Decompiler produced no output at " ++ path

/-! ## Runs -/

/-- Options of the decompiler that make its output reproducible. -/
def engineFlags : List Text :=
  [text "-din=1", text "-rbr=0", text "-dgs=1", text "-asc=1", text "-log=ERROR"]

/-- The arguments of a run: options of the machine, the decompiler, its options, input and output. -/
def engineArgs (s : DecompilerSettings) (engine input output : Text) : List Text :=
  [text "-Xmx" ++ s.maxHeap, text "-jar", engine] ++ engineFlags ++ s.extraArgs ++ [input, output]

/-- The place of an existing item, or a fault. -/
def locateItem (dir : Place) (path : Text) (fault : Text → DecompilerFault) : Action DecompilerFault Place := do
  match (← get).find dir path with
  | .ok (p, _) => return p
  | .error _   => throw (fault path)

/-- Decompile a tree of classes into a folder; the path of the tree of sources. -/
def decompile (host : Host.Launcher) (dir : Place) (s : DecompilerSettings) (input output engine : Text) :
    Action DecompilerFault Text := do
  let inputPlace ← locateItem dir input .noInput
  let enginePlace ← locateItem dir engine .noEngine
  (Disk.makeFolders dir output).mapFault fun _ => .noFolder output
  let outputPlace ← locateItem dir output .noFolder
  let some name := inputPlace.getLast? | throw (.noName (Disk.placeText inputPlace))
  let tree := outputPlace ++ [name]
  let log := Disk.placeText tree ++ text ".log"
  let args := engineArgs s (Disk.placeText enginePlace) (Disk.placeText inputPlace) (Disk.placeText outputPlace)
  match host (← get) (.plain s.java args enginePlace.dropLast [] none) with
  | .refused _ => throw (.notLaunched s.java)
  | .endless e => do set e.disk; throw .endless
  | .ended e   =>
    set e.disk
    -- What the decompiler said is kept even if it failed.
    (Action.change fun d => d.writeFile dir log (toBytes (e.on 1 ++ e.on 2))).mapFault fun _ => .noLog log
    if e.exit ≠ .code 0 then throw (.ended e.exit log)
    match (← get).find dir (Disk.placeText tree) with
    | .ok _    => return Disk.placeText tree
    | .error _ => throw (.noOutput (Disk.placeText tree))

/-- Remove a decompiled tree and its log; a link in place of the tree is removed itself. -/
def removeOutput (dir : Place) (tree : Text) (d : Disk) : Disk :=
  let removed (d : Disk) (path : Text) (wanted : Bool) : Disk :=
    match d.locateEntry dir path with
    | .ok p    => if wanted then d.remove p else d
    | .error _ => d
  let without := removed d tree (d.leadsToFolder dir tree)
  let log := tree ++ text ".log"
  removed without log (without.leadsToFile dir log)

end JavaMend.Build
