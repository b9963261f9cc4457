import JavaMend.Text.Bytes
import JavaMend.Text.Order

/-!
# `Disk` — files and folders

A disk is a finite table from places to items; a place is the list of names that leads to it from the root. An item is a
folder, a file, a link to somewhere else, or a device.

## Contents
- **Disks.** `Place`, `Device`, `Item`, `Disk` with `item?`, `put`, `isFolder`, `file?`, `isFile`.
- **Trees.** `remove`, `below?`, `children`, `filesBelow`.
-/

namespace JavaMend

open Text

/-! ## Disks -/

/-- The names that lead from the root to an item. -/
abbrev Place := List Text

/-- Something that looks like a file and stores nothing. -/
inductive Device where
  /-- It takes everything and holds nothing. -/
  | null
  /-- It takes nothing. -/
  | full
deriving DecidableEq, Repr

/-- What is at a place. -/
inductive Item where
  | folder
  | file (data : Bytes) (executable : Bool)
  /-- A path that is followed in place of the item. -/
  | link (target : Text)
  | device (d : Device)
deriving DecidableEq, Repr

/-- Items by place. The root is always a folder. -/
structure Disk where
  items : List (Place × Item)
deriving DecidableEq

namespace Disk

/-- The disk that holds nothing. -/
def empty : Disk := ⟨[]⟩

/-- What is at a place. -/
def item? (d : Disk) (p : Place) : Option Item :=
  if p = [] then some .folder else (d.items.find? fun e => e.1 == p).map (·.2)

/-- Put an item at a place, in place of what was there. -/
def put (d : Disk) (p : Place) (item : Item) : Disk := ⟨(p, item) :: d.items.filter fun e => e.1 != p⟩

/-- The place holds a folder. -/
def isFolder (d : Disk) (p : Place) : Bool := d.item? p == some .folder

/-- The data of the file at a place. -/
def file? (d : Disk) (p : Place) : Option Bytes :=
  match d.item? p with
  | some (.file data _) => some data
  | _                   => none

/-- The place holds a file. -/
def isFile (d : Disk) (p : Place) : Bool := (d.file? p).isSome

theorem item?_put_self {d : Disk} {p : Place} (h : p ≠ []) (item : Item) :
    (d.put p item).item? p = some item := by
  simp [item?, put, h]

theorem item?_put_of_ne {d : Disk} {p q : Place} (h : q ≠ p) (item : Item) :
    (d.put p item).item? q = d.item? q := by
  unfold item? put
  by_cases hq : q = []
  · simp [hq]
  · have hp : (p == q) = false := beq_false_of_ne fun e => h e.symm
    simp only [hq, if_false, List.find?_cons, hp, List.find?_filter]
    congr 2
    funext e
    by_cases he : e.1 = q
    · simp [he, h]
    · simp [he]

/-! ## Trees -/

/-- Remove what is at a place and below it. -/
def remove (d : Disk) (p : Place) : Disk := ⟨d.items.filter fun e => !p.isPrefixOf e.1⟩

/-- The place lies below the folder `p`: the names that lead there from it. -/
def below? (p q : Place) : Option (List Text) :=
  if p.isPrefixOf q && p != q then some (q.drop p.length) else none

/-- Put a pair in its place in the order of the first components. -/
def insertInOrder {α : Type} (e : List Text × α) : List (List Text × α) → List (List Text × α)
  | []      => [e]
  | f :: fs => if pathBefore f.1 e.1 then f :: insertInOrder e fs else e :: f :: fs

/-- The files below a folder with the names that lead to them, folder by folder, in the order of the names. Links are
    not followed. -/
def filesBelow (d : Disk) (p : Place) : List (List Text × Bytes) :=
  (d.items.filterMap fun (q, item) =>
    match below? p q, item with
    | some names, .file data _ => some (names, data)
    | _,          _            => none).foldr insertInOrder []

/-- What is directly in a folder, in the order of the names. -/
def children (d : Disk) (p : Place) : List (Text × Item) :=
  ((d.items.filterMap fun (q, item) =>
    match below? p q with
    | some [name] => some ([name], item)
    | _           => none).foldr insertInOrder []).map fun (names, item) => (joinWith ['/'] names, item)

end Disk
end JavaMend
