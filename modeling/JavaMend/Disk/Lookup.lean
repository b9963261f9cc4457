import JavaMend.Disk.Path

/-!
# `Disk.Lookup` — following paths

A path is followed name by name. Every name is looked up in a folder, links on the way are followed, and so is one at
the end unless the link itself is meant. A path that ends in a slash or a dot leads to a folder.

## Contents
- **Faults.** `PathFault` with its messages.
- **Following.** `namesOf`, `Trail`, `walk`, `locate`, `locateEntry`.
- **Finding.** `find`, `findEntry`, `leadsToFolder`, `leadsToFile`, `readFile`, `readText?`.
-/

namespace JavaMend

open Text

/-! ## Faults -/

/-- Why a path does not lead where it should. -/
inductive PathFault where
  | missing
  /-- Something else is where a folder should be. -/
  | notFolder
  /-- A folder is where a file should be. -/
  | isFolder
  /-- Something is there already. -/
  | taken
  /-- The folder is not empty. -/
  | notEmpty
  /-- Links lead to one another. -/
  | looping
  | tooLong
  /-- The path holds a null character. -/
  | invalid
  /-- Nothing can be written there. -/
  | noSpace
deriving DecidableEq, Repr

/-- The wording of a fault. -/
def PathFault.message : PathFault → Text
  | .missing   => text "No such file or directory"
  | .notFolder => text "Not a directory"
  | .isFolder  => text "Is a directory"
  | .taken     => text "File exists"
  | .notEmpty  => text "Directory not empty"
  | .looping   => text "Too many levels of symbolic links"
  | .tooLong   => text "File name too long"
  | .invalid   => text "Invalid argument"
  | .noSpace   => text "No space left on device"

/-- The number by which systems know a fault. -/
def PathFault.number : PathFault → Nat
  | .missing   => 2
  | .taken     => 17
  | .notFolder => 20
  | .isFolder  => 21
  | .invalid   => 22
  | .noSpace   => 28
  | .tooLong   => 36
  | .notEmpty  => 39
  | .looping   => 40

/-- The wording of a fault with its number. -/
def PathFault.numbered (f : PathFault) : Text :=
  if f = .invalid then text "file name contained an unexpected NUL byte"
  else f.message ++ text " (os error " ++ Nat.toDigits 10 f.number ++ [')']

namespace Disk

/-! ## Following -/

/-- The names to be followed for a path; a dot stands at the end if the path leads to a folder. -/
def namesOf (path : Text) : List Text :=
  components path ++ if (splitOn '/' path).getLast?.any isIdle then [['.']] else []

/-- Where names have led. -/
inductive Trail where
  | done (p : Place)
  /-- To a link that is to be followed from the folder `p`, with the names after it. -/
  | link (p : Place) (target : Text) (rest : List Text)

/-- The longest name, in bytes. -/
def nameLimit : Nat := 255

/-- The length of the shortest path that is too long, in bytes. -/
def pathLimit : Nat := 4096

/-- Follow names from a place up to their end or up to a link. -/
def walkNames (d : Disk) (followLast : Bool) (p : Place) : List Text → Except PathFault Trail
  | []      => .ok (.done p)
  | n :: ns =>
    match d.item? p with
    | none         => .error .missing
    | some .folder =>
      if n = ['.'] then walkNames d followLast p ns
      else if n = text ".." then walkNames d followLast p.dropLast ns
      else if nameLimit < n.byteLength then .error .tooLong
      else
        let q := p ++ [n]
        match d.item? q with
        | some (.link target) =>
          if followLast || !ns.isEmpty then .ok (.link p target ns) else .ok (.done q)
        | _                   => walkNames d followLast q ns
    | some _       => .error .notFolder

/-- Follow names from a place, and links on the way. `fuel` bounds the number of links. -/
def walk (d : Disk) (followLast : Bool) : Nat → Place → List Text → Except PathFault Place
  | 0,        _, _     => .error .looping
  | fuel + 1, p, names =>
    match walkNames d followLast p names with
    | .error e                      => .error e
    | .ok (.done q)                 => .ok q
    | .ok (.link q target rest)     => walk d followLast fuel (startOf q target) (namesOf target ++ rest)

/-- How many links a path may lead through. -/
def linkLimit : Nat := 40

/-- Follow a path from a folder. -/
def follow (d : Disk) (followLast : Bool) (dir : Place) (path : Text) : Except PathFault Place :=
  if path.isEmpty then .error .missing
  else if '\x00' ∈ path then .error .invalid
  else if pathLimit ≤ path.byteLength then .error .tooLong
  else walk d followLast (linkLimit + 1) (startOf dir path) (namesOf path)

/-- The place that a path leads to from a folder; there need not be anything. -/
def locate (d : Disk) (dir : Place) (path : Text) : Except PathFault Place := d.follow true dir path

/-- The place that a path names; a link at its end is not followed. -/
def locateEntry (d : Disk) (dir : Place) (path : Text) : Except PathFault Place := d.follow false dir path

/-! ## Finding -/

/-- What is at a located place. -/
def itemAt (d : Disk) (p : Except PathFault Place) : Except PathFault (Place × Item) := do
  let p ← p
  match d.item? p with
  | some item => .ok (p, item)
  | none      => .error .missing

/-- What a path leads to, and where it is. -/
def find (d : Disk) (dir : Place) (path : Text) : Except PathFault (Place × Item) := d.itemAt (d.locate dir path)

/-- What a path names, and where it is; a link at its end is not followed. -/
def findEntry (d : Disk) (dir : Place) (path : Text) : Except PathFault (Place × Item) :=
  d.itemAt (d.locateEntry dir path)

/-- The place of what a path leads to. -/
def find? (d : Disk) (dir : Place) (path : Text) : Option (Place × Item) := (d.find dir path).toOption

/-- A path leads to a folder. -/
def leadsToFolder (d : Disk) (dir : Place) (path : Text) : Bool := (d.find? dir path).any fun e => e.2 == .folder

/-- A path leads to a file. -/
def leadsToFile (d : Disk) (dir : Place) (path : Text) : Bool := (d.find? dir path).any fun e => d.isFile e.1

/-- What can be read where a path leads. -/
def readFile (d : Disk) (dir : Place) (path : Text) : Except PathFault Bytes := do
  match ← d.find dir path with
  | (_, .file data _) => .ok data
  | (_, .device _)    => .ok []
  | (_, .folder)      => .error .isFolder
  | (_, .link _)      => .error .looping

/-- What can be read where a path leads, if it is a text. -/
def readText? (d : Disk) (dir : Place) (path : Text) : Option Text := (d.readFile dir path).toOption.bind ofUtf8?

end Disk
end JavaMend
