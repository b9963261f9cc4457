import JavaMend.Java.Constants

/-!
# `Proofs.Java.NamingScan` — the scan that names constants

Naming goes over a stretch of code with the characters behind it and those that are written already. It meets three kinds
of places: a character, a call that it passes over, and a call whose arguments it names one by one, each with the calls in
it named before. So what holds of naming is proved along the scan (`scan_induction`), from one equation for each kind.

## Contents
- **Calls.** `callAt?_spec`, `closeParen?_spec`, `joinWith_splitArgs`.
- **The scan.** `namedArg`, `closedArgs?`; `nameCalls_plain`, `nameCalls_passed`, `nameCalls_named`; `scan_induction`.
-/

namespace JavaMend.Java

open JavaMend Text

/-! ## Calls -/

theorem callOf?_spec {name t : Text} {call : CallHead} (h : callOf? name t = some call) :
    t = call.head ++ call.rest ∧ ∃ s, call.head = s ++ ['('] := by
  simp only [callOf?, Option.bind_eq_bind, Option.bind_eq_some_iff, Option.pure_def, Option.some.injEq] at h
  obtain ⟨afterName, hname, rest, hrest, rfl⟩ := h
  refine ⟨?_, name ++ afterName.takeWhile isBlank, rfl⟩
  conv => lhs; rw [dropPrefix?_eq_some.1 hname, ← List.takeWhile_append_dropWhile (p := isBlank) (l := afterName),
    dropPrefix?_eq_some.1 hrest]
  simp

theorem callAt?_spec {names : List Text} {before : Option Char} {t : Text} {call : CallHead}
    (h : callAt? names before t = some call) : t = call.head ++ call.rest ∧ ∃ s, call.head = s ++ ['('] := by
  unfold callAt? at h
  split at h
  · obtain ⟨name, -, hcall⟩ := List.exists_of_findSome?_eq_some h
    exact callOf?_spec hcall
  · cases h

theorem closeParen?_spec {depth : Nat} {t args rest : Text} (h : closeParen? depth t = some (args, rest)) :
    t = args ++ ')' :: rest := by
  induction t generalizing depth args rest with
  | nil => cases h
  | cons c t ih =>
    unfold closeParen? at h
    split at h
    · rename_i heq
      cases heq
    · rename_i u heq
      cases heq
      split at h
      · cases h
        rfl
      · obtain ⟨⟨a, r⟩, hr, heq⟩ := Option.map_eq_some_iff.1 h
        cases heq
        rw [ih hr, List.cons_append]
    · rename_i d u _ heq
      cases heq
      obtain ⟨⟨a, r⟩, hr, heq⟩ := Option.map_eq_some_iff.1 h
      cases heq
      rw [ih hr, List.cons_append]

theorem splitArgs_ne_nil (depth : Int) (t : Text) : splitArgs depth t ≠ [] := by
  cases t with
  | nil => simp [splitArgs]
  | cons c t =>
    unfold splitArgs
    split
    · simp
    · split
      · simp
      · simp

/-- Joining the arguments with commas gives them back as they were written. -/
theorem joinWith_splitArgs (depth : Int) (t : Text) : joinWith [','] (splitArgs depth t) = t := by
  induction t generalizing depth with
  | nil => rfl
  | cons c t ih =>
    unfold splitArgs
    split
    · rename_i h
      obtain ⟨arg, args, hargs⟩ := List.exists_cons_of_ne_nil (splitArgs_ne_nil 0 t)
      have ih := ih 0
      rw [hargs] at ih ⊢
      rw [joinWith, ih, h.1]
      rfl
    · obtain ⟨arg, args, hargs⟩ := List.exists_cons_of_ne_nil (splitArgs_ne_nil (depth + nesting c) t)
      have ih := ih (depth + nesting c)
      rw [hargs] at ih ⊢
      rw [joinWith_cons_cons, ih]

/-! ## The scan -/

/-- What naming makes of an argument; `inner` is what it makes of the calls in it. -/
def namedArg (table : ConstantTable) (call arg : Text) (inner : Text × List Text) : Text × List Text :=
  match readInt? (trim arg) with
  | some value =>
    match lookup table call value with
    | some constant => (replaceCore arg constant.name, constant.importing.toList)
    | none          => (arg, [])
  | none => inner

variable {table : ConstantTable} {names : List Text} {before : Option Char} {written : Nat}

/-- The arguments of a call that is named, and what follows them: the call goes on from no longer name, it does not begin
    in what is written, and it closes. -/
def closedArgs? (before : Option Char) (written : Nat) (call : CallHead) : Option (Text × Text) :=
  if (before.any fun d => d == '.' || isIdentChar d) || written != 0 then none else closeParen? 0 call.rest

theorem closedArgs?_spec {call : CallHead} {args rest : Text} (h : closedArgs? before written call = some (args, rest)) :
    written = 0 ∧ call.rest = args ++ ')' :: rest := by
  unfold closedArgs? at h
  split at h
  · cases h
  · rename_i hopen
    exact ⟨Decidable.byContradiction fun hne => hopen (by simp [hne]), closeParen?_spec h⟩

theorem nameCalls_plain {c : Char} {t : Text} (h : callAt? names before (c :: t) = none) :
    nameCalls table names before written (c :: t) =
      ((if written = 0 then [c] else []) ++ (nameCalls table names (some c) (written - 1) t).1,
        (nameCalls table names (some c) (written - 1) t).2) := by
  rw [nameCalls]
  split
  · split <;> rfl
  · rename_i hcall
    rw [h] at hcall
    cases hcall

theorem nameCalls_passed {t : Text} {call : CallHead} (h : callAt? names before t = some call)
    (hargs : closedArgs? before written call = none) :
    nameCalls table names before written t =
      (call.head.drop written ++ (nameCalls table names (some '(') (written - call.head.length) call.rest).1,
        (nameCalls table names (some '(') (written - call.head.length) call.rest).2) := by
  cases t with
  | nil => exact absurd (length_callAt?_lt h) (Nat.not_lt_zero _)
  | cons c t =>
    rw [nameCalls]
    split
    · rename_i hnone
      rw [h] at hnone
      cases hnone
    · rename_i found hfound
      obtain rfl : call = found := Option.some.inj (h.symm.trans hfound)
      simp only
      split
      · rfl
      · rename_i args rest hsome
        have hsome : closedArgs? before written call = some (args, rest) := hsome
        rw [hargs] at hsome
        cases hsome

theorem nameCalls_named {t args rest : Text} {call : CallHead} (h : callAt? names before t = some call)
    (hargs : closedArgs? before written call = some (args, rest)) :
    nameCalls table names before written t =
      (call.head ++ joinWith [','] ((splitArgs 0 args).map fun arg =>
          (namedArg table call.name arg (nameCalls table names none 0 arg)).1)
        ++ ')' :: (nameCalls table names (some '(') (args.length + 1) call.rest).1,
        ((splitArgs 0 args).flatMap fun arg => (namedArg table call.name arg (nameCalls table names none 0 arg)).2)
          ++ (nameCalls table names (some '(') (args.length + 1) call.rest).2) := by
  cases t with
  | nil => exact absurd (length_callAt?_lt h) (Nat.not_lt_zero _)
  | cons c t =>
    rw [nameCalls]
    split
    · rename_i hnone
      rw [h] at hnone
      cases hnone
    · rename_i found hfound
      obtain rfl : call = found := Option.some.inj (h.symm.trans hfound)
      simp only
      split
      · rename_i hnone
        have hnone : closedArgs? before written call = none := hnone
        rw [hargs] at hnone
        cases hnone
      · rename_i args' rest' hsome
        have hsome : closedArgs? before written call = some (args', rest') := hsome
        obtain ⟨rfl, rfl⟩ := Prod.mk.inj (Option.some.inj (hargs.symm.trans hsome))
        have hmap : ((splitArgs 0 args).attach.map fun arg =>
            namedArg table call.name arg.1 (nameCalls table names none 0 arg.1)) =
            (splitArgs 0 args).map fun arg => namedArg table call.name arg (nameCalls table names none 0 arg) :=
          List.attach_map_val (f := fun arg => namedArg table call.name arg (nameCalls table names none 0 arg))
        refine Prod.ext ?_ ?_
        · change call.head ++ joinWith [','] (((splitArgs 0 args).attach.map fun arg =>
            namedArg table call.name arg.1 (nameCalls table names none 0 arg.1)).map Prod.fst) ++ _ = _
          rw [hmap, List.map_map]
          rfl
        · change ((splitArgs 0 args).attach.map fun arg =>
            namedArg table call.name arg.1 (nameCalls table names none 0 arg.1)).flatMap Prod.snd ++ _ = _
          rw [hmap, List.flatMap_map]

/-- **Induction along the scan**: over the characters and calls that are passed over, and over the arguments of the
    calls that are named. -/
theorem scan_induction (names : List Text) {motive : Option Char → Nat → Text → Prop}
    (nil : ∀ before written, motive before written [])
    (plain : ∀ before written c t, callAt? names before (c :: t) = none → motive (some c) (written - 1) t →
      motive before written (c :: t))
    (passed : ∀ before written t call, callAt? names before t = some call → closedArgs? before written call = none →
      motive (some '(') (written - call.head.length) call.rest → motive before written t)
    (named : ∀ before t call args rest, callAt? names before t = some call →
      closedArgs? before 0 call = some (args, rest) → (∀ arg ∈ splitArgs 0 args, motive none 0 arg) →
      motive (some '(') (args.length + 1) call.rest → motive before 0 t)
    (before : Option Char) (written : Nat) (t : Text) : motive before written t := by
  induction hn : t.length using Nat.strongRecOn generalizing before written t with
  | ind n ih =>
    subst hn
    cases hcall : callAt? names before t with
    | none =>
      cases t with
      | nil => exact nil before written
      | cons c t => exact plain before written c t hcall (ih t.length (by simp) _ _ t rfl)
    | some call =>
      have hlt := length_callAt?_lt hcall
      cases hargs : closedArgs? before written call with
      | none => exact passed before written t call hcall hargs (ih _ hlt _ _ call.rest rfl)
      | some split =>
        obtain ⟨rfl, hrest⟩ := closedArgs?_spec hargs
        refine named before t call split.1 split.2 hcall hargs (fun arg harg => ?_) (ih _ hlt _ _ call.rest rfl)
        have hle := length_le_of_mem_splitArgs harg
        have hlength := congrArg List.length hrest
        rw [List.length_append, List.length_cons] at hlength
        exact ih arg.length (by omega) none 0 arg rfl

end JavaMend.Java
