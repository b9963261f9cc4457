import JavaMend.Disk.Change

/-!
# `Proofs.Disk.Growth` — disks that grow

A folder is made where nothing was, and a file is written where nothing was or a file. No folder and no link goes away
by that, and no link comes to be; so a path leads on where it led before, and what is known of the disk at one time is
of use later. Making folders changes no file at all, and writing a file changes the one that the path leads to.

## Contents
- **Growing.** `Grows`; `Grows.locate`.
- **Places for files.** `TakesFile`, `grows_put`.
- **Folders.** `AddsFolders`; `makeFolder_ok`, `related_makeFolders`, `addsFolders_makeFolders`; `SameDevices`.
- **Files.** `Wrote`; `writeAt_ok`, `writeFile_ok`, `sameDevices_writeFile`, `Wrote.again`.
-/

namespace JavaMend
namespace Disk

open Text

/-! ## Growing -/

/-- **The disk grew**: its folders are folders still, and the links are as before. -/
structure Grows (d d' : Disk) : Prop where
  folder : ∀ {p}, d.item? p = some .folder → d'.item? p = some .folder
  link : ∀ {p t}, d'.item? p = some (.link t) ↔ d.item? p = some (.link t)

namespace Grows

theorem refl (d : Disk) : Grows d d := ⟨id, Iff.rfl⟩

theorem trans {d d' d'' : Disk} (h : Grows d d') (h' : Grows d' d'') : Grows d d'' :=
  ⟨fun hp => h'.folder (h.folder hp), h'.link.trans h.link⟩

/-- Where names led, they lead still. -/
theorem walkNames {d d' : Disk} (h : Grows d d') {last : Bool} {p : Place} {names : List Text} {t : Trail}
    (hw : d.walkNames last p names = .ok t) : d'.walkNames last p names = .ok t := by
  -- Names are followed from folders, which are folders still. At a link the trail ends on both disks (`case6`, `case7`),
  -- and where there was none, none is now (`case8`).
  fun_induction Disk.walkNames d last p names with
  | case1 p => rw [← hw, Disk.walkNames]
  | case2 => cases hw
  | case3 p ns hp ih =>
    unfold Disk.walkNames
    simp only [h.folder hp, if_true]
    exact ih hw
  | case4 p ns hp hdot ih =>
    unfold Disk.walkNames
    simp only [h.folder hp, if_neg hdot, if_true]
    exact ih hw
  | case5 => cases hw
  | case6 p n ns hp hdot hup hlong q target hq hfollow =>
    have hq' : d'.item? (p ++ [n]) = some (.link target) := h.link.2 hq
    unfold Disk.walkNames
    simp only [h.folder hp, if_neg hdot, if_neg hup, if_neg hlong, hq', if_pos hfollow]
    exact hw
  | case7 p n ns hp hdot hup hlong q target hq hfollow =>
    have hq' : d'.item? (p ++ [n]) = some (.link target) := h.link.2 hq
    unfold Disk.walkNames
    simp only [h.folder hp, if_neg hdot, if_neg hup, if_neg hlong, hq', if_neg hfollow]
    exact hw
  | case8 p n ns hp hdot hup hlong q hq ih =>
    unfold Disk.walkNames
    simp only [h.folder hp, if_neg hdot, if_neg hup, if_neg hlong]
    split
    · rename_i target hq'
      exact absurd (h.link.1 hq') (hq target)
    · exact ih hw
  | case9 => cases hw

theorem walk {d d' : Disk} (h : Grows d d') {last : Bool} {fuel : Nat} {p q : Place} {names : List Text}
    (hw : d.walk last fuel p names = .ok q) : d'.walk last fuel p names = .ok q := by
  induction fuel generalizing p names with
  | zero => cases hw
  | succ fuel ih =>
    unfold Disk.walk at hw ⊢
    cases ht : d.walkNames last p names with
    | error e => simp [ht] at hw
    | ok t =>
      rw [ht] at hw
      rw [h.walkNames ht]
      cases t with
      | done r => exact hw
      | link r target rest => exact ih hw

/-- **Where a path led, it leads still.** -/
theorem locate {d d' : Disk} (h : Grows d d') {dir : Place} {path : Text} {p : Place}
    (hl : d.locate dir path = .ok p) : d'.locate dir path = .ok p := by
  unfold Disk.locate follow at hl ⊢
  split at hl
  · cases hl
  · rw [if_neg ‹_›]
    split at hl
    · cases hl
    · rw [if_neg ‹_›]
      split at hl
      · cases hl
      · rw [if_neg ‹_›]
        exact h.walk hl

end Grows

/-! ## Places for files -/

/-- A file can be put at the place: there is one already, or nothing. -/
def TakesFile (d : Disk) (p : Place) : Prop := d.item? p = none ∨ ∃ data x, d.item? p = some (.file data x)

/-- Putting something else but a link where a file can be lets the disk grow. -/
theorem grows_put {d : Disk} {p : Place} {item : Item} (hp : p ≠ []) (htakes : d.TakesFile p)
    (hitem : ∀ t, item ≠ .link t) : Grows d (d.put p item) := by
  constructor
  · intro q hq
    have hne : q ≠ p := by
      rintro rfl
      rcases htakes with h | ⟨data, x, h⟩ <;> simp [h] at hq
    rwa [item?_put_of_ne hne]
  · intro q t
    by_cases hqp : q = p
    · subst hqp
      rw [item?_put_self hp]
      rcases htakes with h | ⟨data, x, h⟩ <;> simp [h, hitem]
    · rw [item?_put_of_ne hqp]

theorem file?_put_of_ne {d : Disk} {p q : Place} (h : q ≠ p) (item : Item) : (d.put p item).file? q = d.file? q := by
  simp only [file?, item?_put_of_ne h]

/-! ## Folders -/

/-- **Folders came to be**, and nothing else changed: files are as before. -/
structure AddsFolders (d d' : Disk) : Prop extends Grows d d' where
  file : ∀ p, d'.file? p = d.file? p

namespace AddsFolders

theorem refl (d : Disk) : AddsFolders d d := ⟨.refl d, fun _ => rfl⟩

theorem trans {d d' d'' : Disk} (h : AddsFolders d d') (h' : AddsFolders d' d'') : AddsFolders d d'' :=
  ⟨h.toGrows.trans h'.toGrows, fun p => (h'.file p).trans (h.file p)⟩

end AddsFolders

/-- A folder is made where nothing was. -/
theorem makeFolder_ok {d d' : Disk} {dir : Place} {path : Text} (h : d.makeFolder dir path = .ok d') :
    ∃ p ≠ [], d.item? p = none ∧ d' = d.put p .folder := by
  simp only [makeFolder, bind, Except.bind, pure, Except.pure, throw, throwThe, MonadExceptOf.throw] at h
  -- All but one of the ways through the checks end in a fault.
  repeat' split at h
  all_goals try cases h
  rename_i name _ _ up _ _ _ _ _ hfree
  exact ⟨up ++ [name], by simp, by simpa using hfree, rfl⟩

theorem addsFolders_makeFolder {d d' : Disk} {dir : Place} {path : Text} (h : d.makeFolder dir path = .ok d') :
    AddsFolders d d' := by
  obtain ⟨p, hp, hnone, rfl⟩ := makeFolder_ok h
  refine ⟨grows_put hp (.inl hnone) (by simp), fun q => ?_⟩
  by_cases hq : q = p
  · subst hq
    simp [file?, item?_put_self hp, hnone]
  · exact file?_put_of_ne hq _

section
variable {R : Disk → Disk → Prop} {dir : Place}

/-- What holds from disk to disk of two actions holds of one after the other. -/
theorem related_bind {ε α β : Type} (htrans : ∀ {d d' d''}, R d d' → R d' d'' → R d d'') {a : Action ε α}
    {f : α → Action ε β} {d : Disk} (ha : R d (a.on d).2) (hf : ∀ x d', R d' ((f x).on d').2) :
    R d ((a >>= f).on d).2 := by
  rw [Action.on_bind]
  split
  · rename_i x d' h
    rw [h] at ha
    exact htrans ha (hf x d')
  · rename_i e d' h
    rw [h] at ha
    exact ha

variable (hrefl : ∀ d, R d d) (htrans : ∀ {d d' d''}, R d d' → R d' d'' → R d d'')
  (hmade : ∀ {d d' path}, d.makeFolder dir path = .ok d' → R d d')

include hrefl hmade

theorem related_ensureFolder (path : Text) (d : Disk) : R d ((ensureFolder dir path).on d).2 := by
  simp only [ensureFolder, Action.on_bind, Action.on_get]
  split
  · rename_i d' h
    exact hmade h
  · simp only [Action.on_bind, Action.on_get]
    split <;> exact hrefl d

include htrans

/-- **What making one folder does to the disk, making folders does**, however it ends. -/
theorem related_makeFolders (path : Text) (d : Disk) : R d ((makeFolders dir path).on d).2 := by
  unfold makeFolders
  generalize path.length + 1 = fuel
  induction fuel generalizing path d with
  | zero => exact hrefl d
  | succ fuel ih =>
    have hensure := related_ensureFolder hrefl hmade path
    unfold makeFoldersSteps
    split
    · exact hrefl d
    · rw [Action.on_bind, Action.on_get]
      simp only
      split
      · rename_i d' h
        exact hmade h
      · split
        · rename_i up hup
          exact related_bind (R := R) htrans (ih up d) fun _ => hensure
        · exact related_bind (R := R) htrans (hrefl d) fun _ => hensure
      · rw [Action.on_bind, Action.on_get]
        simp only
        split <;> exact hrefl d

end

/-- **Making folders adds folders**, however it ends. -/
theorem addsFolders_makeFolders (dir : Place) (path : Text) (d : Disk) :
    AddsFolders d ((makeFolders dir path).on d).2 :=
  related_makeFolders (R := AddsFolders) AddsFolders.refl AddsFolders.trans addsFolders_makeFolder path d

/-- The devices are as before. -/
def SameDevices (d d' : Disk) : Prop := ∀ p x, d'.item? p = some (.device x) ↔ d.item? p = some (.device x)

theorem SameDevices.trans {d d' d'' : Disk} (h : SameDevices d d') (h' : SameDevices d' d'') : SameDevices d d'' :=
  fun p x => (h' p x).trans (h p x)

theorem sameDevices_put {d : Disk} {p : Place} {item : Item} (hp : p ≠ []) (htakes : d.TakesFile p)
    (hitem : ∀ x, item ≠ .device x) : SameDevices d (d.put p item) := by
  intro q x
  by_cases hqp : q = p
  · subst hqp
    rw [item?_put_self hp]
    rcases htakes with h | ⟨data, y, h⟩ <;> simp [h, hitem]
  · rw [item?_put_of_ne hqp]

theorem sameDevices_makeFolders (dir : Place) (path : Text) (d : Disk) :
    SameDevices d ((makeFolders dir path).on d).2 := by
  refine related_makeFolders (R := SameDevices) (fun d p x => Iff.rfl) SameDevices.trans (fun {d d' path} h => ?_) path d
  obtain ⟨p, hp, hnone, rfl⟩ := makeFolder_ok h
  exact sameDevices_put hp (.inl hnone) (by simp)

/-! ## Files -/

/-- **Data were written** where the path leads: there is a file with them, and everything else is as before. -/
structure Wrote (dir : Place) (path : Text) (data : Bytes) (p : Place) (d d' : Disk) : Prop extends Grows d d' where
  place : d'.locate dir path = .ok p
  file_self : d'.file? p = some data
  file_of_ne : ∀ {q}, q ≠ p → d'.file? q = d.file? q

theorem AddsFolders.wrote {d d' d'' : Disk} {dir : Place} {path : Text} {data : Bytes} {p : Place}
    (h : AddsFolders d d') (h' : Wrote dir path data p d' d'') : Wrote dir path data p d d'' :=
  ⟨h.toGrows.trans h'.toGrows, h'.place, h'.file_self, fun hq => (h'.file_of_ne hq).trans (h.file _)⟩

/-- A file is written where the path leads. -/
theorem targetOf_eq_ok_iff {d : Disk} {dir : Place} {path : Text} {p : Place} :
    d.targetOf dir path = .ok p ↔ d.locate dir path = .ok p := by
  unfold targetOf
  split
  · rename_i h
    rw [h]
    simp only
    split <;> simp
  · rfl

/-- Writing at a place puts a file there, unless there is a device. -/
theorem writeAt_ok {d d' : Disk} {p : Place} {data : Bytes} (h : d.writeAt p data = .ok d') :
    (∃ x, d.item? p = some (.device x) ∧ d' = d)
      ∨ p ≠ [] ∧ d.TakesFile p ∧ ∃ x, d' = d.put p (.file data x) := by
  have hroot (hp : p = []) : d.item? p = some .folder := by simp [item?, hp]
  unfold writeAt at h
  split at h
  · cases h
  · cases h
  · rename_i old x hitem
    cases h
    refine .inr ⟨fun hp => ?_, .inr ⟨old, x, hitem⟩, x, rfl⟩
    simp [hroot hp] at hitem
  · rename_i hitem
    cases h
    exact .inl ⟨.null, hitem, rfl⟩
  · rename_i hitem
    split at h
    · cases h
      exact .inl ⟨.full, hitem, rfl⟩
    · cases h
  · rename_i hitem
    split at h
    · cases h
      refine .inr ⟨fun hp => ?_, .inl hitem, false, rfl⟩
      simp [hroot hp] at hitem
    · cases h
    · cases h

theorem writeFile_eq {d : Disk} {dir : Place} {path : Text} {p : Place} (h : d.locate dir path = .ok p) (data : Bytes) :
    d.writeFile dir path data = d.writeAt p data := by
  simp only [writeFile, targetOf_eq_ok_iff.2 h, bind, Except.bind]

/-- **Writing a file** puts the data where the path leads, unless there is a device. -/
theorem writeFile_ok {d d' : Disk} {dir : Place} {path : Text} {data : Bytes}
    (h : d.writeFile dir path data = .ok d') :
    ∃ p, (d.locate dir path = .ok p ∧ (∃ x, d.item? p = some (.device x)) ∧ d' = d) ∨ Wrote dir path data p d d' := by
  cases htarget : d.targetOf dir path with
  | error e => simp [writeFile, htarget, bind, Except.bind] at h
  | ok p =>
    have hplace := targetOf_eq_ok_iff.1 htarget
    rw [writeFile_eq hplace] at h
    refine ⟨p, ?_⟩
    rcases writeAt_ok h with ⟨x, hx, rfl⟩ | ⟨hp, hitem, x, rfl⟩
    · exact .inl ⟨hplace, ⟨x, hx⟩, rfl⟩
    · have hgrows : Grows d (d.put p (.file data x)) := grows_put hp hitem (by simp)
      exact .inr ⟨hgrows, hgrows.locate hplace, by simp [file?, item?_put_self hp], fun hq => file?_put_of_ne hq _⟩

theorem sameDevices_writeFile {d d' : Disk} {dir : Place} {path : Text} {data : Bytes}
    (h : d.writeFile dir path data = .ok d') : SameDevices d d' := by
  cases htarget : d.targetOf dir path with
  | error e => simp [writeFile, htarget, bind, Except.bind] at h
  | ok p =>
    rw [writeFile_eq (targetOf_eq_ok_iff.1 htarget)] at h
    obtain ⟨-, -, rfl⟩ | ⟨hp, htakes, x, rfl⟩ := writeAt_ok h
    · exact fun p x => Iff.rfl
    · exact sameDevices_put hp htakes (by simp)

/-- Writing to a device changes nothing. -/
theorem writeFile_device {d d' : Disk} {dir : Place} {path : Text} {p : Place} {x : Device}
    (hplace : d.locate dir path = .ok p) (hdevice : d.item? p = some (.device x)) {data : Bytes}
    (h : d.writeFile dir path data = .ok d') : d' = d := by
  rw [writeFile_eq hplace] at h
  rcases writeAt_ok h with ⟨-, -, rfl⟩ | ⟨-, hnone | ⟨old, y, hfile⟩, -⟩
  · rfl
  · simp [hnone] at hdevice
  · simp [hfile] at hdevice

theorem item?_of_file? {d : Disk} {p : Place} {data : Bytes} (h : d.file? p = some data) :
    ∃ x, d.item? p = some (.file data x) := by
  unfold file? at h
  split at h
  · rename_i x hitem
    cases h
    exact ⟨x, hitem⟩
  · cases h

theorem Wrote.leadsToFile {d d' : Disk} {dir : Place} {path : Text} {data : Bytes} {p : Place}
    (h : Wrote dir path data p d d') : d'.leadsToFile dir path = true := by
  obtain ⟨x, hitem⟩ := item?_of_file? h.file_self
  simp [Disk.leadsToFile, find?, find, itemAt, h.place, hitem, bind, Except.bind, Except.toOption, isFile, h.file_self]

theorem not_leadsToFile_of_device {d : Disk} {dir : Place} {path : Text} {p : Place} {x : Device}
    (hplace : d.locate dir path = .ok p) (hdevice : d.item? p = some (.device x)) :
    d.leadsToFile dir path = false := by
  simp [Disk.leadsToFile, find?, find, itemAt, hplace, hdevice, bind, Except.bind, Except.toOption, isFile, file?]

/-- What was written can be written again. -/
theorem Wrote.again {d d' : Disk} {dir : Place} {path : Text} {data : Bytes} {p : Place}
    (h : Wrote dir path data p d d') (data' : Bytes) :
    ∃ d'', d'.writeFile dir path data' = .ok d'' ∧ Wrote dir path data' p d d'' := by
  obtain ⟨x, hitem⟩ := item?_of_file? h.file_self
  have hwritten : d'.writeFile dir path data' = .ok (d'.put p (.file data' x)) := by
    rw [writeFile_eq h.place, writeAt, hitem]
  obtain ⟨q, ⟨hplace, ⟨y, hdevice⟩, -⟩ | hagain⟩ := writeFile_ok hwritten
  · cases h.place.symm.trans hplace
    simp [hitem] at hdevice
  · cases (hagain.locate h.place).symm.trans hagain.place
    exact ⟨_, hwritten, h.toGrows.trans hagain.toGrows, hagain.place, hagain.file_self,
      fun hq => (hagain.file_of_ne hq).trans (h.file_of_ne hq)⟩

end Disk
end JavaMend
