import JavaMend.Disk

/-!
# `Disk.Path` — paths as texts

Paths are taken apart at slashes. Empty names and single dots say nothing, but a slash or a dot at the end tells that
the path leads to a folder.

## Contents
- **Parts.** `components`, `isAbsolute`, `fileName?`, `parentPath?`, `startOf`.
- **Making paths.** `joinPath`, `placeText`.
-/

namespace JavaMend
namespace Disk

open Text

/-! ## Parts -/

/-- The part of a path between slashes says nothing. -/
def isIdle (part : Text) : Bool := part.isEmpty || part == ['.']

/-- The names in a path; empty ones and `.` say nothing. -/
def components (path : Text) : List Text := (splitOn '/' path).filter fun c => !isIdle c

/-- The path starts at the root. -/
def isAbsolute (path : Text) : Bool := path.head? == some '/'

/-- The last name in a path, unless it leads upwards. -/
def fileName? (path : Text) : Option Text := (components path).getLast?.filter fun c => c != text ".."

/-- What a path starts with before its first name: the root, a dot for the folder itself, or nothing. -/
def pathHead (path : Text) : Text :=
  match path with
  | '/' :: _        => ['/']
  | ['.']           => ['.']
  | '.' :: '/' :: _ => ['.']
  | _               => []

/-- Parts without those at the end that say nothing. -/
def trimIdle (parts : List Text) : List Text := (parts.reverse.dropWhile isIdle).reverse

/-- The path without its last name. That of the folder itself is empty; the root and the empty path have none. -/
def parentPath? (path : Text) : Option Text :=
  let head := pathHead path
  match trimIdle (splitOn '/' (path.drop head.length)) with
  | []    => if head = ['.'] then some [] else none
  | parts => some (head ++ joinWith ['/'] (trimIdle parts.dropLast))

/-- Where a path starts that is followed from a folder. -/
def startOf (dir : Place) (path : Text) : Place := if isAbsolute path then [] else dir

/-! ## Making paths -/

/-- A path that leads on from a folder; an absolute path leads from the root. -/
def joinPath (folder path : Text) : Text :=
  if isAbsolute path || folder.isEmpty then path
  else if folder.getLast? == some '/' then folder ++ path
  else folder ++ '/' :: path

/-- The absolute path of a place. -/
def placeText (p : Place) : Text := '/' :: joinWith ['/'] p

end Disk
end JavaMend
