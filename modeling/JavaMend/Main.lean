import JavaMend.CommandLine.Run
import JavaMend.Host.Toolbox

/-!
# `Main` — the command line program

The files that the arguments name are taken into a disk, the command line is run on it, and what has changed is
written back. Nothing is decided here.

## Contents
- **Taking in.** `takeTree`, `takeArguments`, `usualFolders`.
- **Writing back.** `putBack`, `clearAway`.
- `main`.
-/

namespace JavaMend

open Text

/-! ## Taking in -/

/-- The path of a place. -/
def pathText (p : Place) : String := String.ofList (Disk.placeText p)

/-- Take what is at a place and below it into a disk. Scripts are executable. -/
partial def takeTree (d : Disk) (p : Place) : IO Disk := do
  let path := pathText p
  if !(← System.mkFilePath [path] |>.pathExists) then return d
  if ← System.mkFilePath [path] |>.isDir then
    let mut d := d.withFolders [] (Disk.placeText p)
    for entry in ← System.mkFilePath [path] |>.readDir do
      d ← takeTree d (p ++ [entry.fileName.toList])
    return d
  let data := (← IO.FS.readBinFile path).toList
  let d := d.withFolders [] (Disk.placeText p.dropLast)
  return d.put p (.file data (startsWith (text "#!") (ofBytes (data.take 2))))

/-- The place that a path names from a folder. -/
def placeNamed (dir : Place) (path : Text) : Place :=
  (Disk.components path).foldl (fun p name => if name = text ".." then p.dropLast else p ++ [name])
    (Disk.startOf dir path)

/-- The paths that an argument may name: itself, its value after an equals sign, and working folders beside these. -/
def pathsIn (argument : Text) : List Text :=
  let value := (argument.dropWhile (· != '=')).drop 1
  ([argument, value].filter fun t => !t.isEmpty).flatMap fun t => [t, t ++ text ".work"]

/-- Take what the arguments name into a disk. -/
def takeArguments (dir : Place) (args : List Text) : IO Disk := do
  let mut d := Host.machine.withFolders [] (Disk.placeText dir)
  for path in args.flatMap pathsIn do
    d ← takeTree d (placeNamed dir path)
  return d

/-- The folders in which programs are looked for. -/
def usualFolders : IO (List Text) := do
  return ((← IO.getEnv "PATH").map String.toList).toList

/-! ## Writing back -/

/-- Make the folders and write the files of a disk that are not as before. -/
def putBack (before after : Disk) : IO Unit := do
  for (p, item) in after.items do
    if before.item? p != some item then
      match item with
      | .folder      => IO.FS.createDirAll (pathText p)
      | .file data _ => do
        IO.FS.createDirAll (pathText p.dropLast)
        IO.FS.writeBinFile (pathText p) data.toByteArray
      | _            => pure ()

/-- Remove what is gone. -/
def clearAway (before after : Disk) : IO Unit := do
  for (p, item) in before.items do
    if (after.item? p).isNone && (after.item? p.dropLast).isSome then
      match item with
      | .folder => IO.FS.removeDirAll (pathText p)
      | _       => IO.FS.removeFile (pathText p)

end JavaMend

open JavaMend in
/-- Run the command line. -/
def main (args : List String) : IO UInt32 := do
  let words := args.map String.toList
  let dir := Disk.components (← IO.currentDir).toString.toList
  let before ← takeArguments dir words
  let environment : Host.Environment := (← usualFolders).map fun folders => ("PATH".toList, folders)
  let outcome := CommandLine.execute (Host.toolbox environment) dir before words
  clearAway before outcome.disk
  putBack before outcome.disk
  for line in outcome.lines do
    IO.println (String.ofList line)
  if outcome.code = 2 then
    for line in CommandLine.usageLines do
      IO.eprintln (String.ofList line)
  if let some fault := outcome.fault then
    IO.eprintln ("Error: " ++ String.ofList fault.message)
  return UInt32.ofNat outcome.code
