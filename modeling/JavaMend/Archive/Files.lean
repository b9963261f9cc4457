import JavaMend.Archive.Container
import JavaMend.Disk.Change

/-!
# `Archive.Files` — stores on disk

A store is loaded from an archive file or from a folder, saved as an archive file, and unpacked into a folder. In a
folder, files named `*.java` are sources and all others resources; what lies in `META-INF` at the top is not taken.

## Contents
- **Faults.** `FileFault` with its messages.
- **Loading.** `entryOfFile`, `loadFolder`, `Codec.load`, `load`.
- **Saving.** `makeFolders`, `writeFile`, `Codec.save`, `save`, `unpack`.
-/

namespace JavaMend

open Text Archive

/-! ## Faults -/

/-- Why a file is not read or written. -/
inductive FileFault where
  /-- There is no file at this path. -/
  | notOpened (path : Text)
  /-- What is at this path stores nothing. -/
  | notMapped (path : Text)
  /-- The file at this path is no archive. -/
  | notArchive (path : Text) (error : ReadError)
  /-- The source of this path is no text. -/
  | notText (path : Text)
  | store (error : StoreError)
  /-- The folder cannot be made. -/
  | noFolder (path : Text)
  /-- The archive cannot be opened for writing. -/
  | noOutput (path : Text)
  /-- The archive cannot be written to its end. -/
  | notFinished (fault : PathFault)
  /-- The file cannot be written. -/
  | notWritten (path : Text)
deriving DecidableEq

/-- The wording of a fault. -/
def FileFault.message : FileFault → Text
  | .notOpened path        => text "Failed to open file: " ++ path
  | .notMapped path        => text "Failed to memory-map file: " ++ path
  | .notArchive path error => error.message path
  | .notText path          => text "Source is not UTF-8: " ++ path
  | .store error           => error.message
  | .noFolder path         => text "Failed to create directory: " ++ path
  | .noOutput path         => text "Failed to create output file: " ++ path
  | .notFinished fault     => fault.numbered
  | .notWritten path       => text "Failed to write file: " ++ path

/-! ## Loading -/

/-- The path of an entry for a file that names lead to. -/
def entryPath (names : List Text) : Text := (joinWith ['/'] names).map Key.slash

/-- The entry that a file stands for. -/
def entryOfFile (file : List Text × Bytes) : Except FileFault (Text × Content) :=
  let path := entryPath file.1
  if endsWith (text ".java") path then
    match ofUtf8? file.2 with
    | some t => .ok (path, .source t)
    | none   => .error (.notText path)
  else .ok (path, .resource file.2)

/-- Load the files below a folder. -/
def loadFolder (d : Disk) (p : Place) : Except FileFault Store := do
  let files := (d.filesBelow p).filter fun file => !startsWith (text "META-INF/") (entryPath file.1)
  let loaded ← files.mapM entryOfFile
  loaded.foldlM (fun s (path, content) => (s.insert path content).mapError .store) Store.empty

/-- Load the store that a path leads to. -/
def Archive.Codec.load (c : Codec) (d : Disk) (dir : Place) (path : Text) : Except FileFault Store :=
  match d.find dir path with
  | .ok (p, .folder)      => loadFolder d p
  | .ok (_, .file data _) => (c.read data).mapError (.notArchive path)
  | .ok (_, .device _)    => .error (.notMapped path)
  | _                     => .error (.notOpened path)

@[inherit_doc Archive.Codec.load]
def load (d : Disk) (dir : Place) (path : Text) : Except FileFault Store := Codec.stored.load d dir path

/-! ## Saving -/

/-- Make a folder and those on the way to it. -/
def makeFolders (dir : Place) (path : Text) : Action FileFault Unit :=
  (Disk.makeFolders dir path).mapFault fun _ => .noFolder path

/-- Make the folder that is to hold a file. -/
def makeParent (dir : Place) (path : Text) : Action FileFault Unit := do
  match Disk.parentPath? path with
  | some up => if up.isEmpty then return else makeFolders dir up
  | none    => return

/-- Write a file; `fault` says how that may fail. -/
def writeFile (fault : PathFault → FileFault) (dir : Place) (path : Text) (data : Bytes) :
    Action FileFault Unit :=
  (Action.change fun d => d.writeFile dir path data).mapFault fault

/-- Save a store as an archive file, which must then be there. -/
def Archive.Codec.save (c : Codec) (dir : Place) (path : Text) (s : Store) : Action FileFault Unit := do
  makeParent dir path
  writeFile (fun _ => .noOutput path) dir path []
  writeFile .notFinished dir path (c.write s)
  if !(← get).leadsToFile dir path then throw (.notMapped path)

@[inherit_doc Archive.Codec.save]
def save (dir : Place) (path : Text) (s : Store) : Action FileFault Unit := Codec.stored.save dir path s

/-- Write the entries of a store as files below a folder; how many there are. -/
def unpack (dir : Place) (folder : Text) (s : Store) : Action FileFault Nat := do
  makeFolders dir folder
  for e in s.entries do
    let path := Disk.joinPath folder e.key.text
    makeParent dir path
    writeFile (fun _ => .notWritten path) dir path e.content.bytes
  return s.size

end JavaMend
