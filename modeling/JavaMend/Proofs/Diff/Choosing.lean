import JavaMend.Diff.Candidates
import JavaMend.Diff.Parser
import JavaMend.Proofs.Diff.Applied

/-!
# `Proofs.Diff.Choosing` — the first candidate that does not fail is taken

Candidates are tried on the store as it is, so that none sees another one: those that fail are passed over, with what was
reported of them (`select_append`), and the first one that does not fail ends the search (`select_first`). Applying it
then reports what trying it did (`apply_report`), and the store gets the text that was found, whether the options are
lenient or not. Where all fail, nothing is applied.

## Contents
- **Candidates.** `Candidate.Fails`, `Candidate.tried`; `exists_first_clean`.
- **The search.** `select_append`, `select_first`, `select_of_fails`.
- **The choice.** `storeAfter`, `Takes`; `takes_apply`, `resolve_first`.
-/

namespace JavaMend.Diff

open JavaMend Text

/-! ## Candidates -/

/-- The candidate fails when it is tried: one of its hunks does, or the patch as a whole. -/
def Candidate.Fails (o : Options) (s : Store) (c : Candidate) : Prop := (probe o c.patch s).1.status = .failed

instance (o : Options) (s : Store) (c : Candidate) : Decidable (c.Fails o s) := inferInstanceAs (Decidable (_ = _))

/-- The name of a candidate with what is reported when it is tried. -/
def Candidate.tried (o : Options) (s : Store) (c : Candidate) : Text × Report := (c.id, (probe o c.patch s).1)

section
variable {o : Options} {s : Store}

/-- If a candidate does not fail, there is a first one that does not. -/
theorem exists_first_clean {cs : List Candidate} (h : ∃ c ∈ cs, ¬ c.Fails o s) :
    ∃ before c after, cs = before ++ c :: after ∧ (∀ b ∈ before, b.Fails o s) ∧ ¬ c.Fails o s := by
  have hsome : (cs.find? fun c => decide (¬ c.Fails o s)).isSome = true := by
    rw [List.find?_isSome]
    simpa only [decide_eq_true_eq] using h
  obtain ⟨c, hfind⟩ := Option.isSome_iff_exists.1 hsome
  obtain ⟨hclean, before, after, hsplit, hbefore⟩ := List.find?_eq_some_iff_append.1 hfind
  refine ⟨before, c, after, hsplit, fun b hb => ?_, of_decide_eq_true hclean⟩
  simpa using hbefore b hb

/-! ## The search -/

/-- **Candidates that fail are passed over**, each with what is reported of it on the store as it is. -/
theorem select_append {before : List Candidate} (h : ∀ b ∈ before, b.Fails o s) (rest : List Candidate) :
    select o s (before ++ rest) = (before.map (Candidate.tried o s) ++ (select o s rest).1, (select o s rest).2) := by
  induction before with
  | nil => rfl
  | cons b before ih =>
    have hfails : (probe o b.patch s).1.status = .failed := h b List.mem_cons_self
    have hrest := ih fun c hc => h c (List.mem_cons_of_mem b hc)
    rw [List.cons_append, select, hrest]
    simp only [hfails, if_true]
    rfl

/-- **The first candidate that does not fail ends the search.** -/
theorem select_first {before : List Candidate} {c : Candidate} (h : ∀ b ∈ before, b.Fails o s) (hc : ¬ c.Fails o s)
    (after : List Candidate) :
    select o s (before ++ c :: after) = (before.map (Candidate.tried o s), some c) := by
  have hselect : select o s (c :: after) = ([], some c) := by
    rw [select]
    exact if_neg hc
  rw [select_append h, hselect, List.append_nil]

/-- If all candidates fail, none is selected. -/
theorem select_of_fails {cs : List Candidate} (h : ∀ c ∈ cs, c.Fails o s) :
    select o s cs = (cs.map (Candidate.tried o s), none) := by
  have hselect := select_append h []
  rw [List.append_nil] at hselect
  rw [hselect, select, List.append_nil]

end

/-! ## The choice -/

/-- The store after a choice: without a result it is the one before. -/
def storeAfter (s : Store) : Except Unresolved (Resolution × Store) → Store
  | .ok (_, s') => s'
  | .error _    => s

/-- **The candidate is taken**, after some that are not. What is told of all of them is what trying them on the store
    reports. The store becomes what applying the candidate alone makes of it: its target is given the text that was found
    when it was tried. -/
structure Takes (o : Options) (s : Store) (before : List Candidate) (c : Candidate) (res : Resolution) (s' : Store) :
    Prop where
  selected : res.selected = c.id
  report : res.report = (probe o c.patch s).1
  rejected : res.rejected = before.map fun b => (b.id, (probe o b.patch s).1)
  store : s' = (apply o c.patch s).2
  given : ∀ t, (probe o c.patch s).2 = some t → Gives s c.patch.target t s'
  kept : (probe o c.patch s).2 = none → s' = s

section
variable {o : Options} {s : Store} {before : List Candidate} {c : Candidate}

/-- A candidate that does not fail is taken by applying it. -/
theorem takes_apply (hc : ¬ c.Fails o s) :
    Takes o s before c ⟨c.id, (apply o c.patch s).1, before.map (Candidate.tried o s)⟩ (apply o c.patch s).2 := by
  have hkept := apply_kept o (p := c.patch) (s := s) (.inl hc)
  refine ⟨rfl, apply_report o c.patch s, rfl, rfl, fun t ht => ?_, fun hnone => ?_⟩
  · obtain ⟨doc, hdoc⟩ := targetOf_of_probe o ht
    rw [hkept, ht]
    exact gives_set ((targetOf_ok hdoc).symm.imp And.left id) t
  · rw [hkept, hnone]
    rfl

end

/-- **A choice takes the first candidate that does not fail.** If there is one, it is selected, the ones before it are
    rejected, and the store is what applying it leaves. Otherwise the choice fails and names the target of the first
    candidate and all candidates in order, and the store is as before. -/
theorem resolve_first (o : Options) (cs : List Candidate) (s : Store) :
    ((∃ c ∈ cs, ¬ c.Fails o s) → ∃ before c after res,
        cs = before ++ c :: after ∧ (∀ b ∈ before, b.Fails o s) ∧ ¬ c.Fails o s
          ∧ resolve o cs s = .ok (res, storeAfter s (resolve o cs s))
          ∧ Takes o s before c res (storeAfter s (resolve o cs s)))
      ∧ ((∀ c ∈ cs, c.Fails o s) →
          resolve o cs s = .error ⟨(cs.head?.map fun c => c.patch.target.text).getD [], cs.map (·.id)⟩
            ∧ storeAfter s (resolve o cs s) = s) := by
  constructor
  · intro hex
    obtain ⟨before, c, after, hsplit, hbefore, hc⟩ := exists_first_clean hex
    have hresolve : resolve o cs s
        = .ok (⟨c.id, (apply o c.patch s).1, before.map (Candidate.tried o s)⟩, (apply o c.patch s).2) := by
      simp only [resolve, hsplit, select_first hbefore hc]
    rw [hresolve]
    exact ⟨before, c, after, _, hsplit, hbefore, hc, rfl, takes_apply hc⟩
  · intro hall
    have hresolve : resolve o cs s = .error ⟨(cs.head?.map fun c => c.patch.target.text).getD [], cs.map (·.id)⟩ := by
      simp only [resolve, select_of_fails hall]
    rw [hresolve]
    exact ⟨rfl, rfl⟩

/-- The first candidate fails, and the second is taken though the third does not fail either; the first one alone leaves the
    store as it is. -/
theorem resolve_first_second :
    ∃ (first second third : Candidate) (s : Store) (res : Resolution) (s' : Store),
      [first, second, third].map (·.id) = [text "F.java.patch", text "F.java.patch.1", text "F.java.patch.2"]
        ∧ first.Fails ⟨.exact, 0, false⟩ s ∧ ¬ second.Fails ⟨.exact, 0, false⟩ s ∧ ¬ third.Fails ⟨.exact, 0, false⟩ s
        ∧ resolve ⟨.exact, 0, false⟩ [first, second, third] s = .ok (res, s')
        ∧ Takes ⟨.exact, 0, false⟩ s [first] second res s'
        ∧ resolve ⟨.exact, 0, false⟩ [first] s = .error ⟨text "F.java", [text "F.java.patch"]⟩
        ∧ storeAfter s (resolve ⟨.exact, 0, false⟩ [first] s) = s := by
  let key : Key := ⟨text "F.java", by decide, by decide⟩
  let first : Candidate := ⟨text "F.java.patch", key, [⟨⟨1, 1⟩, ⟨1, 1⟩, [⟨.remove, text "Q"⟩, ⟨.add, text "X"⟩]⟩]⟩
  let second : Candidate := ⟨text "F.java.patch.1", key, [⟨⟨2, 1⟩, ⟨2, 1⟩, [⟨.remove, text "B"⟩, ⟨.add, text "Y"⟩]⟩]⟩
  let third : Candidate := ⟨text "F.java.patch.2", key, [⟨⟨2, 1⟩, ⟨2, 1⟩, [⟨.remove, text "B"⟩, ⟨.add, text "Z"⟩]⟩]⟩
  let store := Store.empty.set key (.source (text "A\nB\nC\n"))
  have hfirst : first.Fails ⟨.exact, 0, false⟩ store := by decide +kernel
  have hsecond : ¬ second.Fails ⟨.exact, 0, false⟩ store := by decide +kernel
  have hthird : ¬ third.Fails ⟨.exact, 0, false⟩ store := by decide +kernel
  obtain ⟨before, c, after, res, hsplit, hbefore, hc, hresolve, htakes⟩ :=
    (resolve_first ⟨.exact, 0, false⟩ [first, second, third] store).1 ⟨second, by simp, hsecond⟩
  have hnone := (resolve_first ⟨.exact, 0, false⟩ [first] store).2 (by simpa using hfirst)
  -- The candidate taken is neither the first, which fails, nor the third, since the second does not fail.
  obtain ⟨rfl, rfl, rfl⟩ : before = [first] ∧ c = second ∧ after = [third] := by
    cases before with
    | nil =>
      obtain ⟨rfl, -⟩ := List.cons.inj hsplit
      exact absurd hfirst hc
    | cons b before =>
      obtain ⟨rfl, hrest⟩ := List.cons.inj hsplit
      cases before with
      | nil =>
        obtain ⟨rfl, rfl⟩ := List.cons.inj hrest
        exact ⟨rfl, rfl, rfl⟩
      | cons b' before =>
        obtain ⟨rfl, -⟩ := List.cons.inj hrest
        exact absurd (hbefore second (by simp)) hsecond
  exact ⟨first, second, third, store, res, _, rfl, hfirst, hsecond, hthird, hresolve, htakes, hnone.1, hnone.2⟩

end JavaMend.Diff
