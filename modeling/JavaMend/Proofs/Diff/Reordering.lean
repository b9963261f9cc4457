import JavaMend.Diff.Parser
import JavaMend.Proofs.Diff.Applied
import Mathlib.Data.List.FinRange
import Mathlib.Data.List.Sort

/-!
# `Proofs.Diff.Reordering` — patches of different targets do not see each other

A patch reads its target and writes its target. So in a row of patches, what is reported of those for one target and
what becomes of it follow from these patches alone: they can be applied without the others (`applyAll_project`). A
reordering that keeps the patches of every target in their order has the same projections, and so it changes neither a
report nor the store in the end (`applyAll_reordered`).

## Contents
- **One patch.** `probe_congr`, `apply_congr`, `find?_apply_of_ne`.
- **One target in a row.** `forTarget`, `applyAll_project`.
- **Rows with the same projections.** `find?_applyAll_congr`, `mem_zip_applyAll_congr`.
- **Reorderings.** `reordered`, `KeepsTargetOrder`, `forTarget_map_perm`, `mem_zip_finRange`; `applyAll_reordered`.
-/

namespace JavaMend.Diff

open JavaMend Text

variable (o : Options)

/-! ## One patch -/

/-- Trying a patch depends on what is under its target. -/
theorem probe_congr {p : Patch} {s s' : Store} (h : s.find? p.target = s'.find? p.target) :
    probe o p s = probe o p s' :=
  probe_of_targetOf o (by simp only [targetOf, h])

/-- What a patch reports, and what it leaves under its target, depends on what is there. -/
theorem apply_congr {p : Patch} {s s' : Store} (h : s.find? p.target = s'.find? p.target) :
    (apply o p s).1 = (apply o p s').1 ∧ (apply o p s).2.find? p.target = (apply o p s').2.find? p.target := by
  rw [apply_eq, apply_eq, probe_congr o h]
  refine ⟨rfl, ?_⟩
  cases (probe o p s').2 with
  | none => exact h
  | some t =>
    simp only
    split
    · rw [Store.find?_set_self, Store.find?_set_self]
    · exact h

/-- A patch leaves everything but its target alone. -/
theorem find?_apply_of_ne {p : Patch} {s : Store} {k : Key} (h : k ≠ p.target) :
    (apply o p s).2.find? k = s.find? k := by
  rcases apply_store o p s with hsame | ⟨t, doc, hset, -⟩
  · rw [hsame]
  · rw [hset, Store.find?_set_of_ne h]

/-! ## One target in a row -/

section
variable {ι : Type} (p : ι → Patch) (k : Key)

/-- Those places of a row whose patch is for a target. -/
def forTarget (is : List ι) : List ι := is.filter fun i => (p i).target = k

/-- **One target, without the others.** What a row reports of the patches for a target, and what it leaves there, is
    what these patches alone report and leave, in any store that starts with the same under the target. -/
theorem applyAll_project (is : List ι) {s s' : Store} (h : s.find? k = s'.find? k) :
    (is.zip (applyAll o (is.map p) s).1).filter (fun x => (p x.1).target = k)
        = (forTarget p k is).zip (applyAll o ((forTarget p k is).map p) s').1
      ∧ (applyAll o (is.map p) s).2.find? k = (applyAll o ((forTarget p k is).map p) s').2.find? k := by
  induction is generalizing s s' with
  | nil => exact ⟨rfl, h⟩
  | cons i is ih =>
    by_cases hi : (p i).target = k
    · -- Both rows apply this patch, and hold the same under the target before and after it.
      have hcons : forTarget p k (i :: is) = i :: forTarget p k is := List.filter_cons_of_pos (by simpa using hi)
      have hsame : s.find? (p i).target = s'.find? (p i).target := by rw [hi, h]
      obtain ⟨hreport, hfind⟩ := apply_congr o hsame
      rw [hi] at hfind
      obtain ⟨hreports, hrest⟩ := ih hfind
      rw [hcons]
      constructor
      · simp only [List.map_cons, applyAll, List.zip_cons_cons]
        rw [List.filter_cons_of_pos (by simpa using hi), hreports, hreport]
      · exact hrest
    · -- The whole row applies this patch, which does not touch the target.
      have hcons : forTarget p k (i :: is) = forTarget p k is := List.filter_cons_of_neg (by simpa using hi)
      have hfind : (apply o (p i) s).2.find? k = s'.find? k := by rw [find?_apply_of_ne o (Ne.symm hi), h]
      obtain ⟨hreports, hrest⟩ := ih hfind
      rw [hcons]
      constructor
      · simp only [List.map_cons, applyAll, List.zip_cons_cons]
        rw [List.filter_cons_of_neg (by simpa using hi), hreports]
      · exact hrest

end

/-! ## Rows with the same projections -/

section
variable {ι : Type} {p : ι → Patch} {is js : List ι}

/-- Rows that agree on the patches for a target leave the same there. -/
theorem find?_applyAll_congr {k : Key} (h : forTarget p k js = forTarget p k is) (s : Store) :
    (applyAll o (js.map p) s).2.find? k = (applyAll o (is.map p) s).2.find? k := by
  rw [(applyAll_project o p k js rfl).2, h, ← (applyAll_project o p k is rfl).2]

/-- Rows that agree on the patches for every target report the same of every patch. -/
theorem mem_zip_applyAll_congr (h : ∀ k, forTarget p k js = forTarget p k is) (s : Store) {x : ι × Report}
    (hx : x ∈ js.zip (applyAll o (js.map p) s).1) : x ∈ is.zip (applyAll o (is.map p) s).1 := by
  have hproject : x ∈ (js.zip (applyAll o (js.map p) s).1).filter fun y => (p y.1).target = (p x.1).target :=
    List.mem_filter.2 ⟨hx, by simp⟩
  rw [(applyAll_project o p _ js rfl).1, h, ← (applyAll_project o p _ is rfl).1] at hproject
  exact (List.mem_filter.1 hproject).1

end

/-! ## Reorderings -/

section
variable {ps : List Patch} {σ : Equiv.Perm (Fin ps.length)}

/-- The row in another order: at place `j` stands the patch that was at place `σ j`. -/
def reordered (ps : List Patch) (σ : Equiv.Perm (Fin ps.length)) : List Patch :=
  (List.finRange ps.length).map fun j => ps[σ j]

/-- **Patches for one target stay in their order**: of two of them, the one that comes first did so before. -/
def KeepsTargetOrder (ps : List Patch) (σ : Equiv.Perm (Fin ps.length)) : Prop :=
  ∀ i j, i < j → ps[σ i].target = ps[σ j].target → σ i < σ j

instance : Decidable (KeepsTargetOrder ps σ) := inferInstanceAs (Decidable (∀ _ _, _))

/-- Then both orders have the same places for every target: the same ones, and both times in ascending order. -/
theorem forTarget_map_perm (h : KeepsTargetOrder ps σ) (k : Key) :
    forTarget (fun i => ps[i]) k ((List.finRange ps.length).map σ)
      = forTarget (fun i => ps[i]) k (List.finRange ps.length) := by
  have hascending := List.pairwise_lt_finRange ps.length
  have hreordered : (forTarget (fun i => ps[i]) k ((List.finRange ps.length).map σ)).Pairwise (· < ·) := by
    refine List.pairwise_filter.2 (List.pairwise_map.2 (hascending.imp fun {i j} hij hi hj => h i j hij ?_))
    rw [of_decide_eq_true hi, of_decide_eq_true hj]
  refine hreordered.eq_of_mem_iff (hascending.filter _) fun i => ?_
  simp only [forTarget, List.mem_filter, σ.map_finRange_perm.mem_iff]

/-- In a row whose places are numbered, a place stands beside what is there. -/
theorem mem_zip_finRange {α : Type} {n : Nat} {i : Fin n} {rs : List α} {r : α} :
    (i, r) ∈ (List.finRange n).zip rs ↔ rs[i.val]? = some r := by
  constructor
  · intro h
    obtain ⟨m, hm⟩ := List.mem_iff_getElem?.1 h
    obtain ⟨hplace, hr⟩ := List.getElem?_zip_eq_some.1 hm
    obtain ⟨hlt, hplace⟩ := List.getElem?_eq_some_iff.1 hplace
    obtain rfl : m = i.val := by simpa using congrArg Fin.val hplace
    exact hr
  · intro h
    exact List.mem_of_getElem? (List.getElem?_zip_eq_some.2 ⟨by simp, h⟩)

/-- **The order of patches for different targets does not matter.** Whatever some of them fail at or create, a
    reordering that keeps the patches for every target in their order leaves the same store, and of every patch the
    same is reported. -/
theorem applyAll_reordered (h : KeepsTargetOrder ps σ) (s : Store) :
    (applyAll o (reordered ps σ) s).2 = (applyAll o ps s).2
      ∧ ∀ j : Fin ps.length, ∃ r, (applyAll o (reordered ps σ) s).1[j.val]? = some r
        ∧ (applyAll o ps s).1[(σ j).val]? = some r := by
  have hprojections := forTarget_map_perm h
  have hrow : (List.finRange ps.length).map (fun i => ps[i]) = ps := List.map_getElem_finRange ps
  have hreordered : ((List.finRange ps.length).map σ).map (fun i => ps[i]) = reordered ps σ := List.map_map
  constructor
  · refine Store.ext_find? fun k => ?_
    have hfind := find?_applyAll_congr o (hprojections k) s
    rwa [hrow, hreordered] at hfind
  · intro j
    obtain ⟨r, hr⟩ : ∃ r, (applyAll o (reordered ps σ) s).1[j.val]? = some r := by
      refine ⟨_, List.getElem?_eq_getElem ?_⟩
      rw [length_applyAll, reordered, List.length_map, List.length_finRange]
      exact j.isLt
    have hmem : (σ j, r) ∈ ((List.finRange ps.length).map σ).zip (applyAll o (reordered ps σ) s).1 :=
      List.mem_of_getElem? (List.getElem?_zip_eq_some.2 ⟨by simp, hr⟩)
    rw [← hreordered] at hmem
    have hplace := mem_zip_applyAll_congr o hprojections s hmem
    rw [hrow] at hplace
    exact ⟨r, hr, mem_zip_finRange.1 hplace⟩

/-- Three sections: an edit, a new file, and an edit that fails. The new file may come first. -/
theorem applyAll_reordered_creation :
    ∃ (ps : List Patch) (σ : Equiv.Perm (Fin ps.length)) (s : Store),
      parseAll (text "--- a/F\n+++ b/F\n@@ -1 +1 @@\n-1\n+2\n--- a/G\n+++ b/G\n@@ -0,0 +1 @@\n+1\n"
          ++ text "--- a/F\n+++ b/F\n@@ -1 +1 @@\n-1\n+3\n") 1 = .ok ps
        ∧ KeepsTargetOrder ps σ ∧ reordered ps σ ≠ ps
        ∧ (applyAll ⟨.exact, 0, false⟩ ps s).1.map Report.status = [.success, .success, .failed]
        ∧ (applyAll ⟨.exact, 0, false⟩ (reordered ps σ) s).2 = (applyAll ⟨.exact, 0, false⟩ ps s).2
        ∧ ∀ j : Fin ps.length, ∃ r, (applyAll ⟨.exact, 0, false⟩ (reordered ps σ) s).1[j.val]? = some r
          ∧ (applyAll ⟨.exact, 0, false⟩ ps s).1[(σ j).val]? = some r := by
  let f : Key := ⟨text "F", by decide, by decide⟩
  let g : Key := ⟨text "G", by decide, by decide⟩
  let first : Patch := ⟨f, [⟨⟨1, 1⟩, ⟨1, 1⟩, [⟨.remove, text "1"⟩, ⟨.add, text "2"⟩]⟩]⟩
  let second : Patch := ⟨g, [⟨⟨0, 0⟩, ⟨1, 1⟩, [⟨.add, text "1"⟩]⟩]⟩
  let third : Patch := ⟨f, [⟨⟨1, 1⟩, ⟨1, 1⟩, [⟨.remove, text "1"⟩, ⟨.add, text "3"⟩]⟩]⟩
  let σ : Equiv.Perm (Fin [first, second, third].length) := Equiv.swap (0 : Fin 3) 1
  have hkeeps : KeepsTargetOrder [first, second, third] σ := by decide
  refine ⟨[first, second, third], σ, Store.empty.set f (.source (text "1\n")), by decide +kernel, hkeeps, by decide,
    by decide +kernel, applyAll_reordered _ hkeeps _⟩

end

end JavaMend.Diff
