import JavaMend.Disk.Lookup

/-!
# `Disk.Change` — making folders and writing files

## Contents
- **Actions.** `Action`: what is done to a disk and may fail; `Action.change`; `Action.on` with a lemma for each step.
- **Folders.** `makeFolder`, `makeFolders`, `removeFolder`.
- **Files.** `writeAt`, `writeFile`.
-/

namespace JavaMend

open Text

/-! ## Actions -/

/-- Something that is done to a disk and may fail; what was done before a failure stays done. -/
abbrev Action (ε α : Type) := ExceptT ε (StateM Disk) α

namespace Action

/-- Fail with another fault. -/
def mapFault {ε φ α : Type} (f : ε → φ) (a : Action ε α) : Action φ α :=
  ExceptT.mk do return (← a.run).mapError f

/-- Fail or go on. -/
def ofExcept {ε α : Type} (r : Except ε α) : Action ε α := ExceptT.mk (pure r)

/-- Change the disk or fail. -/
def change {ε : Type} (f : Disk → Except ε Disk) : Action ε Unit := do
  match f (← get) with
  | .ok d    => set d
  | .error e => throw e

/-- Run an action. -/
def on {ε α : Type} (a : Action ε α) (d : Disk) : Except ε α × Disk := Id.run (StateT.run a.run d)

variable {ε φ α β : Type}

@[simp] theorem on_pure (x : α) (d : Disk) : (pure x : Action ε α).on d = (.ok x, d) := rfl
@[simp] theorem on_throw (e : ε) (d : Disk) : (throw e : Action ε α).on d = (.error e, d) := rfl
@[simp] theorem on_get (d : Disk) : (get : Action ε Disk).on d = (.ok d, d) := rfl
@[simp] theorem on_set (d d' : Disk) : (set d' : Action ε PUnit).on d = (.ok ⟨⟩, d') := rfl
@[simp] theorem on_mapFault (f : ε → φ) (a : Action ε α) (d : Disk) :
    (a.mapFault f).on d = ((a.on d).1.mapError f, (a.on d).2) := rfl

/-- What comes next acts on the disk that the first action left, unless that failed. -/
theorem on_bind (a : Action ε α) (f : α → Action ε β) (d : Disk) :
    (a >>= f).on d = match a.on d with
      | (.ok x, d')    => (f x).on d'
      | (.error e, d') => (.error e, d') := by
  rcases h : a.on d with ⟨_ | _, _⟩
  all_goals
    simp only [on] at h ⊢
    simp only [ExceptT.run_bind, StateT.run_bind, Id.run_bind, h, StateT.run_pure, Id.run_pure]

theorem on_change (f : Disk → Except ε Disk) (d : Disk) :
    (change f).on d = match f d with
      | .ok d'   => (.ok (), d')
      | .error e => (.error e, d) := by
  unfold change
  simp only [on_bind, on_get]
  split <;> simp

end Action

namespace Disk

/-! ## Folders -/

/-- Make a folder in an existing one. -/
def makeFolder (d : Disk) (dir : Place) (path : Text) : Except PathFault Disk := do
  if path.isEmpty then throw .missing
  if '\x00' ∈ path then throw .invalid
  if pathLimit ≤ path.byteLength then throw .tooLong
  let parts : List Text := ((splitOn '/' path).reverse.dropWhile List.isEmpty).reverse
  match parts.getLast? with
  | none      => throw .taken
  | some name =>
    let up ← d.walk true (linkLimit + 1) (startOf dir path) (parts.dropLast.filter (fun c => !isIdle c))
    match d.item? up with
    | none         => throw .missing
    | some .folder =>
      if name = ['.'] || name = text ".." then throw .taken
      if nameLimit < name.byteLength then throw .tooLong
      if (d.item? (up ++ [name])).isSome then throw .taken
      return d.put (up ++ [name]) .folder
    | some _       => throw .notFolder

/-- Make a folder unless there is one. -/
def ensureFolder (dir : Place) (path : Text) : Action PathFault Unit := do
  match (← get).makeFolder dir path with
  | .ok d    => set d
  | .error e => if (← get).leadsToFolder dir path then return else throw e

/-- Make a folder unless there is one; first those on the way to it, if they are missing. `fuel` bounds their
    number. -/
def makeFoldersSteps (dir : Place) : Nat → Text → Action PathFault Unit
  | 0,        _    => return
  | fuel + 1, path => do
    if path.isEmpty then return
    match (← get).makeFolder dir path with
    | .ok d           => set d
    | .error .missing =>
      match parentPath? path with
      | some up => makeFoldersSteps dir fuel up
      | none    => throw .missing
      ensureFolder dir path
    | .error e        => if (← get).leadsToFolder dir path then return else throw e

/-- Make a folder unless there is one; first those on the way to it, if they are missing. -/
def makeFolders (dir : Place) (path : Text) : Action PathFault Unit :=
  makeFoldersSteps dir (path.length + 1) path

/-- The disk on which a folder was made, as far as possible. -/
def withFolders (d : Disk) (dir : Place) (path : Text) : Disk := ((makeFolders dir path).on d).2

/-- Remove a folder with all that is in it; a link in its place is removed itself. -/
def removeFolder (d : Disk) (dir : Place) (path : Text) : Except PathFault Disk := do
  match ← d.findEntry dir path with
  | (p, .folder) => return d.remove p
  | (p, .link _) => return d.remove p
  | _            => throw .notFolder

/-! ## Files -/

/-- Write a file at a place in an existing folder; a file that is there keeps its mode. -/
def writeAt (d : Disk) (p : Place) (data : Bytes) : Except PathFault Disk :=
  match d.item? p with
  | some .folder         => .error .isFolder
  | some (.link _)       => .error .looping
  | some (.file _ x)     => .ok (d.put p (.file data x))
  | some (.device .null) => .ok d
  | some (.device .full) => if data.isEmpty then .ok d else .error .noSpace
  | none                 =>
    match d.item? p.dropLast with
    | some .folder => .ok (d.put p (.file data false))
    | some _       => .error .notFolder
    | none         => .error .missing

/-- The place where a path says that a file is to be written. -/
def targetOf (d : Disk) (dir : Place) (path : Text) : Except PathFault Place :=
  match d.locate dir path with
  | .error .missing =>
    -- A slash at the end asks for a folder, and a file cannot be one.
    let bare := (path.reverse.dropWhile (· == '/')).reverse
    if bare.length < path.length && (d.locate dir bare).toOption.isSome then .error .isFolder else .error .missing
  | found           => found

/-- Write the file that a path leads to. -/
def writeFile (d : Disk) (dir : Place) (path : Text) (data : Bytes) : Except PathFault Disk := do
  d.writeAt (← d.targetOf dir path) data

/-- What was written at a place is there. -/
theorem file?_of_writeAt {d d' : Disk} {p : Place} {data : Bytes} (hp : p ≠ [])
    (h : d.writeAt p data = .ok d') (hd : ∀ x, d.item? p ≠ some (.device x)) : d'.file? p = some data := by
  unfold writeAt at h
  split at h
  · simp at h
  · simp at h
  · simp only [Except.ok.injEq] at h
    simp [← h, file?, item?_put_self hp]
  · rename_i he
    exact absurd he (hd _)
  · rename_i he
    exact absurd he (hd _)
  · split at h
    · simp only [Except.ok.injEq] at h
      simp [← h, file?, item?_put_self hp]
    · simp at h
    · simp at h

end Disk
end JavaMend
