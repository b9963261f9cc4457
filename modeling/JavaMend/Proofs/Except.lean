/-!
# `Proofs.Except` — peeling computations that may fail

A computation that ends well has every one of its steps end well. The lemmas take a `do` block apart step by step, so
that no proof unfolds the monad.

## Contents
- `bind_eq_ok`, `throw_ne_ok`, `pure_eq_ok`, `mapError_eq_ok`.
- `exists_of_mem_mapM`: every result of a row of computations comes from one of them.
- `exists_mapM_eq_ok_iff`, `mem_mapM_iff`, `map_mapM`, `mapM_perm`: when a row of computations ends well, and with which
  results.
-/

namespace JavaMend

variable {ε α β : Type}

/-- A sequence ends well exactly if both its parts do. -/
theorem bind_eq_ok {x : Except ε α} {f : α → Except ε β} {b : β} :
    (x >>= f) = .ok b ↔ ∃ a, x = .ok a ∧ f a = .ok b := by
  cases x with
  | error e => simp [bind, Except.bind]
  | ok a => simp [bind, Except.bind]

theorem throw_ne_ok {e : ε} {a : α} : (throw e : Except ε α) ≠ .ok a := by
  simp [throw, throwThe, MonadExceptOf.throw]

theorem pure_eq_ok {a b : α} : (pure a : Except ε α) = .ok b ↔ a = b := by
  simp [pure, Except.pure]

/-- Every result of a row of computations comes from one of them. -/
theorem exists_of_mem_mapM {f : α → Except ε β} {xs : List α} {ys : List β} {y : β} (h : xs.mapM f = .ok ys)
    (hy : y ∈ ys) : ∃ x ∈ xs, f x = .ok y := by
  induction xs generalizing ys with
  | nil =>
    rw [List.mapM_nil, pure_eq_ok] at h
    simp [← h] at hy
  | cons x xs ih =>
    rw [List.mapM_cons] at h
    obtain ⟨z, hz, h⟩ := bind_eq_ok.1 h
    obtain ⟨zs, hzs, h⟩ := bind_eq_ok.1 h
    rw [pure_eq_ok] at h
    rw [← h] at hy
    rcases List.mem_cons.1 hy with rfl | hy
    · exact ⟨x, List.mem_cons_self, hz⟩
    · obtain ⟨x', hx', hfx'⟩ := ih hzs hy
      exact ⟨x', List.mem_cons_of_mem x hx', hfx'⟩

/-- Naming a fault otherwise changes no result. -/
theorem mapError_eq_ok {φ : Type} {x : Except ε α} {f : ε → φ} {a : α} : x.mapError f = .ok a ↔ x = .ok a := by
  cases x with
  | error e =>
    show Except.error (f e) = .ok a ↔ Except.error e = .ok a
    simp
  | ok b =>
    show Except.ok b = .ok a ↔ Except.ok b = .ok a
    simp only [Except.ok.injEq]

theorem mapM_cons_eq_ok {f : α → Except ε β} {x : α} {xs : List α} {ys : List β} :
    (x :: xs).mapM f = .ok ys ↔ ∃ y, f x = .ok y ∧ ∃ ys', xs.mapM f = .ok ys' ∧ ys = y :: ys' := by
  simp only [List.mapM_cons, bind_eq_ok, pure_eq_ok]
  simp only [eq_comm (b := ys)]

/-- **A row of computations ends well** exactly if each of them does. -/
theorem exists_mapM_eq_ok_iff {f : α → Except ε β} {xs : List α} :
    (∃ ys, xs.mapM f = .ok ys) ↔ ∀ x ∈ xs, ∃ y, f x = .ok y := by
  induction xs with
  | nil => simp [pure_eq_ok]
  | cons x xs ih =>
    rw [List.forall_mem_cons, ← ih]
    simp only [mapM_cons_eq_ok]
    constructor
    · rintro ⟨-, y, hy, ys, hys, rfl⟩
      exact ⟨⟨y, hy⟩, ys, hys⟩
    · rintro ⟨⟨y, hy⟩, ys, hys⟩
      exact ⟨y :: ys, y, hy, ys, hys, rfl⟩

/-- The results of a row of computations are those of its members. -/
theorem mem_mapM_iff {f : α → Except ε β} {xs : List α} {ys : List β} (h : xs.mapM f = .ok ys) {y : β} :
    y ∈ ys ↔ ∃ x ∈ xs, f x = .ok y := by
  refine ⟨exists_of_mem_mapM h, ?_⟩
  rintro ⟨x, hx, hfx⟩
  induction xs generalizing ys with
  | nil => cases hx
  | cons x' xs ih =>
    obtain ⟨y', hy', ys', hys', rfl⟩ := mapM_cons_eq_ok.1 h
    rcases List.mem_cons.1 hx with rfl | hx
    · rw [hy'] at hfx
      cases hfx
      exact List.mem_cons_self
    · exact List.mem_cons_of_mem y' (ih hys' hx)

/-- What the results show is what shows before, if that is so of each computation. -/
theorem map_mapM {γ : Type} {f : α → Except ε β} {g : β → γ} {g' : α → γ} (hg : ∀ x y, f x = .ok y → g y = g' x)
    {xs : List α} {ys : List β} (h : xs.mapM f = .ok ys) : ys.map g = xs.map g' := by
  induction xs generalizing ys with
  | nil =>
    rw [List.mapM_nil, pure_eq_ok] at h
    rw [← h]
    rfl
  | cons x xs ih =>
    obtain ⟨y, hy, ys', hys', rfl⟩ := mapM_cons_eq_ok.1 h
    rw [List.map_cons, List.map_cons, hg x y hy, ih hys']

/-- A row of computations ends well in any order, with the same results in another order. -/
theorem mapM_perm {f : α → Except ε β} {xs xs' : List α} (hperm : xs.Perm xs') {ys : List β} (h : xs.mapM f = .ok ys) :
    ∃ ys', xs'.mapM f = .ok ys' ∧ ys.Perm ys' := by
  induction hperm generalizing ys with
  | nil => exact ⟨ys, h, .refl ys⟩
  | cons x _ ih =>
    obtain ⟨y, hy, zs, hzs, rfl⟩ := mapM_cons_eq_ok.1 h
    obtain ⟨zs', hzs', hperm⟩ := ih hzs
    exact ⟨y :: zs', mapM_cons_eq_ok.2 ⟨y, hy, zs', hzs', rfl⟩, hperm.cons y⟩
  | swap x x' xs =>
    obtain ⟨y', hy', _, hrest, rfl⟩ := mapM_cons_eq_ok.1 h
    obtain ⟨y, hy, zs, hzs, rfl⟩ := mapM_cons_eq_ok.1 hrest
    exact ⟨y :: y' :: zs, mapM_cons_eq_ok.2 ⟨y, hy, y' :: zs, mapM_cons_eq_ok.2 ⟨y', hy', zs, hzs, rfl⟩, rfl⟩,
      .swap y y' zs⟩
  | trans _ _ ih ih' =>
    obtain ⟨ys', hys', hperm⟩ := ih h
    obtain ⟨ys'', hys'', hperm'⟩ := ih' hys'
    exact ⟨ys'', hys'', hperm.trans hperm'⟩

end JavaMend
