import JavaMend.Diff.Parser
import JavaMend.Proofs.Except
import Mathlib.Data.List.DropRight

/-!
# `Proofs.Diff.Parsed` — what holds of every patch that was read

Reading refuses a hunk whose images do not have the declared lengths and a section without hunks, so a patch that
comes out of `parseAll` has neither. Both facts are carried through the reading of sections by the open one.

## Contents
- `IsLine`: what a line of a diff is.
- `Hunk.Counted`, `Patch.Sound`.
- `HunkRead`: what reading a hunk does; `hunkRead_of_readHunk`.
- `Follows`: what can come after a hunk; `follows_of_readHunk`.
- `SectionsRead`: what reading sections does; `close_eq_ok`, `sectionsRead_of_parseAll`. A statement about what is read is an
  induction on it.
- `SectionsRead.sound`; `sound_of_parseAll` is what other modules cite.
-/

namespace JavaMend.Diff

open JavaMend Text

/-- The text holds no line terminator. -/
def IsLine (t : Text) : Prop := '\n' ∉ t ∧ '\r' ∉ t

instance (t : Text) : Decidable (IsLine t) := inferInstanceAs (Decidable (_ ∧ _))

/-- **Counted hunk.** Both images have as many lines as the header declares. -/
structure Hunk.Counted (h : Hunk) : Prop where
  before : h.before.length = h.old.length
  after : h.after.length = h.new.length

/-- **Sound patch.** There are hunks, and each is counted. -/
structure Patch.Sound (p : Patch) : Prop where
  hunks_ne_nil : p.hunks ≠ []
  counted : ∀ h ∈ p.hunks, h.Counted

/-- **What reading a hunk does**: the header gives the ranges, the lines behind it the body up to their lengths, and the
    rest is left behind the remarks; the images have the lengths, and no further line of a body comes. -/
structure HunkRead (header : Text) (ls : List Text) (hunk : Hunk) (rest : List Text) : Prop where
  ranges : hunkRanges header = .ok (hunk.old, hunk.new)
  lines : hunk.lines = (readBody hunk.old.length hunk.new.length 0 0 ls).1
  behind : rest = (readBody hunk.old.length hunk.new.length 0 0 ls).2.dropWhile isRemark
  counted : hunk.Counted
  complete : overruns rest = false

theorem hunkRead_of_readHunk {header : Text} {ls rest : List Text} {hunk : Hunk}
    (h : readHunk header ls = .ok (hunk, rest)) : HunkRead header ls hunk rest := by
  unfold readHunk at h
  obtain ⟨⟨old, new⟩, hranges, h⟩ := bind_eq_ok.1 h
  simp only at h
  split at h
  · exact absurd h throw_ne_ok
  · rename_i hchecks
    rw [pure_eq_ok, Prod.mk.injEq] at h
    obtain ⟨rfl, rfl⟩ := h
    obtain ⟨hbefore, hchecks⟩ := not_or.1 hchecks
    obtain ⟨hafter, hcomplete⟩ := not_or.1 hchecks
    exact ⟨hranges, rfl, rfl, ⟨Decidable.not_not.1 hbefore, Decidable.not_not.1 hafter⟩, Bool.eq_false_iff.2 hcomplete⟩

/-- Lines that can follow a hunk: they start neither with a remark nor with another line of the body. -/
structure Follows (ls : List Text) : Prop where
  remark : ls.dropWhile isRemark = ls
  overrun : overruns ls = false

/-- Lines can follow every hunk that is read from in front of them. -/
theorem follows_of_readHunk {header : Text} {ls rest : List Text} {hunk : Hunk}
    (h : readHunk header ls = .ok (hunk, rest)) : Follows rest := by
  have hread := hunkRead_of_readHunk h
  refine ⟨?_, hread.complete⟩
  rw [hread.behind]
  exact List.dropWhile_idempotent ..

/-- **What reading sections does**, one of them being open or not, if nothing is refused. A section that ends has hunks;
    where the next one opens its target is found, and hunks are added to the open one. -/
inductive SectionsRead (strip : Nat) : Option Patch → List Text → List Patch → Prop where
  | ends {current : Option Patch} : (∀ p ∈ current, p.hunks ≠ []) → SectionsRead strip current [] current.toList
  | opens {current : Option Patch} {l old new : Text} {ls : List Text} {line : Nat} {target : Key} {later : List Patch} :
    sectionHeader? l ls = some (old, new) → (∀ p ∈ current, p.hunks ≠ []) → sectionTarget strip line old new = .ok target →
    SectionsRead strip (some ⟨target, []⟩) ls.tail later → SectionsRead strip current (l :: ls) (current.toList ++ later)
  | hunk {p : Patch} {l : Text} {ls rest : List Text} {h : Hunk} {ps : List Patch} :
    sectionHeader? l ls = none → startsWith (text "@@") l = true → readHunk l ls = .ok (h, rest) →
    SectionsRead strip (some { p with hunks := p.hunks ++ [h] }) rest ps → SectionsRead strip (some p) (l :: ls) ps
  | chatter {current : Option Patch} {l : Text} {ls : List Text} {ps : List Patch} :
    sectionHeader? l ls = none → ¬ startsWith (text "@@") l = true → SectionsRead strip current ls ps →
    SectionsRead strip current (l :: ls) ps

/-- Closing a section gives it back, if it has hunks. -/
theorem close_eq_ok {line : Nat} {current : Option Patch} {ps : List Patch} (h : close line current = .ok ps) :
    ps = current.toList ∧ ∀ p ∈ current, p.hunks ≠ [] := by
  unfold close at h
  split at h
  · cases h
    exact ⟨rfl, fun p hp => absurd hp (Option.not_mem_none p)⟩
  · rename_i p
    split at h
    · cases h
    · rename_i hne
      cases h
      refine ⟨rfl, ?_⟩
      rintro q ⟨⟩
      simpa using hne

theorem sectionsRead_of_sections {strip total : Nat} {current : Option Patch} {ls : List Text} {ps : List Patch}
    (h : sections strip total current ls = .ok ps) : SectionsRead strip current ls ps := by
  fun_induction sections strip total current ls generalizing ps with
  | case1 current =>
    obtain ⟨rfl, hne⟩ := close_eq_ok h
    exact .ends hne
  | case2 current l ls line old new hs =>
    rename_i ih
    obtain ⟨closed, hclose, h⟩ := bind_eq_ok.1 h
    obtain ⟨target, htarget, h⟩ := bind_eq_ok.1 h
    obtain ⟨later, hlater, h⟩ := bind_eq_ok.1 h
    rw [pure_eq_ok] at h
    subst h
    obtain ⟨rfl, hne⟩ := close_eq_ok hclose
    exact .opens hs hne htarget (ih target hlater)
  | case3 => cases h
  | case4 => cases h
  | case5 l ls hs hat patch hunk rest hread ih => exact .hunk hs hat hread (ih h)
  | case6 current l ls hs hat ih => exact .chatter hs hat (ih h)

/-- **Sections are sound** if the open one holds counted hunks only. -/
theorem SectionsRead.sound {strip : Nat} {current : Option Patch} {ls : List Text} {ps : List Patch}
    (h : SectionsRead strip current ls ps) (hc : ∀ p ∈ current, ∀ k ∈ p.hunks, k.Counted) : ∀ p ∈ ps, p.Sound := by
  induction h with
  | ends hne =>
    intro p hp
    have hp := Option.mem_toList.1 hp
    exact ⟨hne p hp, hc p hp⟩
  | opens _ hne _ _ ih =>
    intro p hp
    rcases List.mem_append.1 hp with hp | hp
    · have hp := Option.mem_toList.1 hp
      exact ⟨hne p hp, hc p hp⟩
    · exact ih (by simp) p hp
  | @hunk patch l ls rest hunk ps _ _ hread _ ih =>
    refine ih ?_
    rintro p ⟨⟩ k hk
    rcases List.mem_append.1 hk with hk | hk
    · exact hc patch rfl k hk
    · obtain rfl := List.mem_singleton.1 hk
      exact (hunkRead_of_readHunk hread).counted
  | chatter _ _ _ ih => exact ih hc

/-- A diff that is read has its lines read. -/
theorem sectionsRead_of_parseAll {diff : Text} {strip : Nat} {ps : List Patch} (h : parseAll diff strip = .ok ps) :
    SectionsRead strip none (lines diff) ps := by
  unfold parseAll at h
  obtain ⟨qs, hqs, h⟩ := bind_eq_ok.1 h
  simp only at h
  split at h
  · exact absurd h throw_ne_ok
  · rw [pure_eq_ok] at h
    exact h ▸ sectionsRead_of_sections hqs

/-- **Every patch that is read is sound.** -/
theorem sound_of_parseAll {diff : Text} {strip : Nat} {ps : List Patch} (h : parseAll diff strip = .ok ps) :
    ∀ p ∈ ps, p.Sound :=
  (sectionsRead_of_parseAll h).sound (by simp)

end JavaMend.Diff
