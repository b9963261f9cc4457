import JavaMend.Archive.Files
import JavaMend.Proofs.Archive.RoundTrip
import JavaMend.Proofs.Disk.Growth

/-!
# `Proofs.Archive.Saving` — saving is all or nothing

Saving opens the file for writing before it writes the archive, so a fault in between would lose what was there. There
is none: what can be opened is a device, which holds no file, or a file, and to that everything can be written. So
saving leaves every file as it was or puts the archive where the path leads (`saved_save`), from where it is loaded as
it was (`load_of_wrote`).

## Contents
- `Saved`: the ways in which saving ends; `Codec.saved_save`, `saved_save`.
- `Codec.load_of_wrote`, `load_of_wrote`.
-/

namespace JavaMend

open Text Archive Disk

/-- **How saving ends**: with a fault and every file as it was, or with the archive where the path leads. -/
inductive Saved (dir : Place) (path : Text) (archive : Bytes) (d : Disk) : Except FileFault Unit × Disk → Prop where
  | failed {fault : FileFault} {d' : Disk} (added : AddsFolders d d') : Saved dir path archive d (.error fault, d')
  | written {p : Place} {d' : Disk} (wrote : Wrote dir path archive p d d') : Saved dir path archive d (.ok (), d')

theorem addsFolders_makeParent (dir : Place) (path : Text) (d : Disk) :
    AddsFolders d ((makeParent dir path).on d).2 := by
  unfold makeParent
  split
  · split
    · exact .refl d
    · exact addsFolders_makeFolders dir _ d
  · exact .refl d

/-- **Saving succeeds or leaves every file as it was.** -/
theorem Archive.Codec.saved_save (c : Codec) (dir : Place) (path : Text) (s : Store) (d : Disk) :
    Saved dir path (c.write s) d ((c.save dir path s).on d) := by
  have hparent := addsFolders_makeParent dir path d
  simp only [Codec.save, Action.on_bind]
  split
  · rename_i d₀ hmade
    rw [hmade] at hparent
    simp only [writeFile, Action.on_mapFault, Action.on_change]
    cases hopened : d₀.writeFile dir path [] with
    | error e => exact .failed hparent
    | ok d₁ =>
      simp only [Except.mapError]
      obtain ⟨p, ⟨hplace, ⟨x, hdevice⟩, rfl⟩ | hwrote⟩ := writeFile_ok hopened
      · -- A device takes the data or not, but there is no file afterwards.
        cases hfinished : d₁.writeFile dir path (c.write s) with
        | error e => exact .failed hparent
        | ok d₂ =>
          cases writeFile_device hplace hdevice hfinished
          simp only [Action.on_get, not_leadsToFile_of_device hplace hdevice]
          exact .failed hparent
      · -- The second time the data are written to the file that is there since the first.
        obtain ⟨d₂, hfinished, hwrote⟩ := hwrote.again (c.write s)
        simp only [hfinished, Action.on_get, hwrote.leadsToFile]
        exact .written (hparent.wrote hwrote)
  · rename_i e d₀ hmade
    rw [hmade] at hparent
    exact .failed hparent

@[inherit_doc Archive.Codec.saved_save]
theorem saved_save (dir : Place) (path : Text) (s : Store) (d : Disk) :
    Saved dir path (write s) d ((save dir path s).on d) :=
  Codec.stored.saved_save dir path s d

/-- What was saved is loaded. -/
theorem Archive.Codec.load_of_wrote {c : Codec} {dir : Place} {path : Text} {s : Store} {p : Place} {d d' : Disk}
    (h : Wrote dir path (c.write s) p d d') (hread : c.read (c.write s) = .ok s) : c.load d' dir path = .ok s := by
  obtain ⟨x, hitem⟩ := item?_of_file? h.file_self
  have hfind : d'.find dir path = .ok (p, .file (c.write s) x) := by
    simp [Disk.find, itemAt, h.place, hitem, bind, Except.bind]
  simp [Codec.load, hfind, hread, Except.mapError]

@[inherit_doc Archive.Codec.load_of_wrote]
theorem load_of_wrote {dir : Place} {path : Text} {s : Store} {p : Place} {d d' : Disk}
    (h : Wrote dir path (write s) p d d') (hs : Fits s) : load d' dir path = .ok s :=
  Codec.load_of_wrote h (read_write hs)

end JavaMend
