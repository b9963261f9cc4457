import JavaMend.Toml.Moment

/-!
# `Toml.Value` — configuration values and how tables grow

A document is a tree of tables. How a table came about decides whether later lines may add to it: a table opened by a
header or written inline is complete, one that only lies on the way to another may still be opened, and one made
by a dotted key may grow by further dotted keys.

## Contents
- **Values.** `TableKind`, `Value`, `Fields`.
- **Fields.** `Fields.get?`, `Fields.set`.
- **Growing.** `Fields.descend?`, `Fields.assign?`, `Fields.openTable?`, `Fields.openElement?`.
-/

namespace JavaMend.Toml

open JavaMend Text

/-- How a table came about. -/
inductive TableKind where
  /-- Opened by a header. -/
  | header
  /-- On the way to a table opened by a header. -/
  | implied
  /-- On the way of a dotted key. -/
  | dotted
  /-- Written as a value. -/
  | inlined
deriving DecidableEq, Repr

/-- A configuration value. Of numbers that are not whole only the text is kept. -/
inductive Value where
  | string (t : Text)
  | integer (n : Int)
  | float (t : Text)
  | boolean (b : Bool)
  | moment (m : Moment)
  /-- A list; `open_` tells that its elements are tables opened by headers, so that it may grow. -/
  | array (open_ : Bool) (items : List Value)
  | table (kind : TableKind) (fields : List (Text × Value))

/-- The fields of a table. -/
abbrev Fields := List (Text × Value)

namespace Fields

/-- The value of a field. -/
def get? (fs : Fields) (key : Text) : Option Value := (fs.find? fun f => f.1 == key).map (·.2)

/-- Give a field a value. -/
def set (key : Text) (value : Value) : Fields → Fields
  | []      => [(key, value)]
  | f :: fs => if f.1 = key then (key, value) :: fs else f :: set key value fs

/-- Apply `edit`, which is told how the table came about, to the table that a path leads to. Missing tables on the way
    are made of the given kind; a list of tables leads to its last one. With `dotted`, complete tables are
    not entered. -/
def descend? (dotted : Bool) (made : TableKind) (edit : TableKind → Fields → Option Fields) :
    List Text → TableKind → Fields → Option Fields
  | [],          kind, fs => edit kind fs
  | key :: path, _,    fs =>
    match get? fs key with
    | none => (descend? dotted made edit path made []).map fun sub => set key (.table made sub) fs
    | some (.table kind sub) =>
      if kind = .inlined ∨ (dotted ∧ kind = .header) then none
      else (descend? dotted made edit path kind sub).map fun sub' => set key (.table kind sub') fs
    | some (.array true items) =>
      match items.getLast? with
      | some (.table kind sub) =>
        (descend? dotted made edit path kind sub).map fun sub' =>
          set key (.array true (items.dropLast ++ [.table kind sub'])) fs
      | _ => none
    | some _ => none

/-- Add a field that is not there. -/
def add? (key : Text) (value : Value) (fs : Fields) : Option Fields :=
  if (get? fs key).isSome then none else some (fs ++ [(key, value)])

/-- Give the key at the end of a dotted path a value. A dotted path must end in a table that dotted keys have made. -/
def assign? (path : List Text) (key : Text) (value : Value) (fs : Fields) : Option Fields :=
  descend? true .dotted
    (fun kind sub => if !path.isEmpty && kind != .dotted then none else add? key value sub)
    path .header fs

/-- Open the table at the end of a path; `fill` makes its fields out of those that it has already. -/
def openTable? (path : List Text) (key : Text) (fill : Fields → Option Fields) (fs : Fields) :
    Option Fields :=
  descend? false .implied (fun _ sub =>
      match get? sub key with
      | none                        => (fill []).map fun made => set key (.table .header made) sub
      | some (.table .implied made) => (fill made).map fun made' => set key (.table .header made') sub
      | some _                      => none)
    path .header fs

/-- Add an element to the list of tables at the end of a path. -/
def openElement? (path : List Text) (key : Text) (fill : Fields → Option Fields) (fs : Fields) :
    Option Fields :=
  descend? false .implied (fun _ sub =>
      match get? sub key with
      | none                     => (fill []).map fun made => set key (.array true [.table .header made]) sub
      | some (.array true items) =>
        (fill []).map fun made => set key (.array true (items ++ [.table .header made])) sub
      | some _                   => none)
    path .header fs

theorem get?_set_self (key : Text) (value : Value) (fs : Fields) :
    get? (set key value fs) key = some value := by
  induction fs with
  | nil => simp [set, get?]
  | cons f fs ih =>
    unfold set
    split
    · simp [get?]
    · rename_i h
      simp only [get?] at ih
      simp [get?, h, ih]

end Fields
end JavaMend.Toml
