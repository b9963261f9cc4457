import JavaMend.Proofs.Java.MarkedConstants

/-!
# `Proofs.Java.Namings` — which arguments are named

Naming the constants of a stretch of code cuts it into pieces: the arguments that give way to a constant, and the
characters between them, which stay. `namings` follows `nameCalls` and keeps these pieces; what is written and what is
imported can be read from them, so that a property of naming is one of its pieces.

## Contents
- **Pieces.** `Naming`, `plains`, `joinArgs`, `argPieces`, `namings`.
- **What the pieces say.** `source_namings`, `written_namings`, `imports_namings`, `hit_namings`.
- **Texts.** `textNamings`; `source_textNamings`, `nameConstants_eq`.
-/

namespace JavaMend.Java

open JavaMend Text

variable {table : ConstantTable} {names : List Text} {before : Option Char} {written : Nat}

/-! ## Pieces -/

/-- A constant that stands for an argument of a call. -/
structure Naming where
  call : Text
  constant : Constant
deriving DecidableEq, Repr

/-- What is written for a piece. -/
def writtenNaming : Piece Naming → Text
  | .plain c => [c]
  | .hit _ n => n.constant.name

/-- Characters that stay. -/
def plains (t : Text) : List (Piece Naming) := t.map .plain

/-- The pieces of arguments in a row, with commas between neighbours. -/
def joinArgs : List (List (Piece Naming)) → List (Piece Naming)
  | []              => []
  | [ps]            => ps
  | ps :: qs :: pss => ps ++ .plain ',' :: joinArgs (qs :: pss)

/-- The pieces of an argument; `inner` are those of the calls in it. -/
def argPieces (table : ConstantTable) (call arg : Text) (inner : List (Piece Naming)) : List (Piece Naming) :=
  match readInt? (trim arg) with
  | some value =>
    match lookup table call value with
    | some constant =>
      plains (arg.takeWhile isBlank) ++ .hit (trim arg) ⟨call, constant⟩ :: plains (arg.reverse.takeWhile isBlank).reverse
    | none => plains arg
  | none => inner

/-- The pieces of a stretch of code, behind the first `written` characters. -/
def namings (table : ConstantTable) (names : List Text) (before : Option Char) (written : Nat) : Text → List (Piece Naming)
  | []     => []
  | c :: t =>
    match _hc : callAt? names before (c :: t) with
    | none => plains (if written = 0 then [c] else []) ++ namings table names (some c) (written - 1) t
    | some call =>
      match _hp : closedArgs? before written call with
      | none => plains (call.head.drop written) ++ namings table names (some '(') (written - call.head.length) call.rest
      | some (args, _) =>
        plains call.head
          ++ joinArgs ((splitArgs 0 args).attach.map fun arg =>
            argPieces table call.name arg.1 (namings table names none 0 arg.1))
          ++ .plain ')' :: namings table names (some '(') (args.length + 1) call.rest
termination_by t => t.length
decreasing_by
  · simp
  · exact length_callAt?_lt _hc
  · have h1 := length_callAt?_lt _hc
    have h2 := length_le_of_mem_splitArgs arg.2
    have h3 := congrArg List.length (closedArgs?_spec _hp).2
    rw [List.length_append, List.length_cons] at h3
    omega
  · exact length_callAt?_lt _hc

@[simp] theorem namings_nil : namings table names before written [] = [] := by rw [namings]

theorem namings_plain {c : Char} {t : Text} (h : callAt? names before (c :: t) = none) :
    namings table names before written (c :: t) =
      plains (if written = 0 then [c] else []) ++ namings table names (some c) (written - 1) t := by
  rw [namings]
  split
  · rfl
  · rename_i hcall
    rw [h] at hcall
    cases hcall

theorem namings_passed {t : Text} {call : CallHead} (h : callAt? names before t = some call)
    (hargs : closedArgs? before written call = none) :
    namings table names before written t =
      plains (call.head.drop written) ++ namings table names (some '(') (written - call.head.length) call.rest := by
  cases t with
  | nil => exact absurd (length_callAt?_lt h) (Nat.not_lt_zero _)
  | cons c t =>
    rw [namings]
    split
    · rename_i hnone
      rw [h] at hnone
      cases hnone
    · rename_i found hfound
      obtain rfl : call = found := Option.some.inj (h.symm.trans hfound)
      split
      · rfl
      · rename_i hsome
        rw [hargs] at hsome
        cases hsome

theorem namings_named {t args rest : Text} {call : CallHead} (h : callAt? names before t = some call)
    (hargs : closedArgs? before written call = some (args, rest)) :
    namings table names before written t =
      plains call.head
        ++ joinArgs ((splitArgs 0 args).map fun arg => argPieces table call.name arg (namings table names none 0 arg))
        ++ .plain ')' :: namings table names (some '(') (args.length + 1) call.rest := by
  cases t with
  | nil => exact absurd (length_callAt?_lt h) (Nat.not_lt_zero _)
  | cons c t =>
    rw [namings]
    split
    · rename_i hnone
      rw [h] at hnone
      cases hnone
    · rename_i found hfound
      obtain rfl : call = found := Option.some.inj (h.symm.trans hfound)
      split
      · rename_i hnone
        rw [hargs] at hnone
        cases hnone
      · rename_i args' rest' hsome
        obtain ⟨rfl, rfl⟩ := Prod.mk.inj (Option.some.inj (hargs.symm.trans hsome))
        rw [List.attach_map_val (f := fun arg => argPieces table call.name arg (namings table names none 0 arg))]

/-! ## What the pieces say -/

@[simp] theorem source_plains (t : Text) : (plains t).flatMap Piece.source = t := by
  induction t with
  | nil => rfl
  | cons c t ih => exact congrArg (c :: ·) ih

@[simp] theorem written_plains (t : Text) : (plains t).flatMap writtenNaming = t := by
  induction t with
  | nil => rfl
  | cons c t ih => exact congrArg (c :: ·) ih

@[simp] theorem values_plains (t : Text) : (plains t).filterMap Piece.value? = [] := by
  rw [plains, List.filterMap_map]
  exact List.filterMap_eq_nil_iff.2 fun _ _ => rfl

@[simp] theorem hit_not_mem_plains {t literal : Text} {n : Naming} : Piece.hit literal n ∉ plains t := by
  simp [plains]

theorem flatMap_joinArgs (f : Piece Naming → Text) (hf : f (.plain ',') = [',']) (pss : List (List (Piece Naming))) :
    (joinArgs pss).flatMap f = joinWith [','] (pss.map (List.flatMap f)) := by
  fun_induction joinArgs pss with
  | case1 => rfl
  | case2 ps => rfl
  | case3 ps qs pss ih =>
    rw [List.flatMap_append, List.flatMap_cons, ih, hf]
    simp [joinWith]

theorem mem_joinArgs {p : Piece Naming} {pss : List (List (Piece Naming))} (h : p ∈ joinArgs pss) :
    p = .plain ',' ∨ ∃ ps ∈ pss, p ∈ ps := by
  fun_induction joinArgs pss with
  | case1 => cases h
  | case2 ps => exact .inr ⟨ps, List.mem_cons_self, h⟩
  | case3 ps qs pss ih =>
    rcases List.mem_append.1 h with h | h
    · exact .inr ⟨ps, List.mem_cons_self, h⟩
    · rcases List.mem_cons.1 h with h | h
      · exact .inl h
      · rcases ih h with h | ⟨rs, hrs, h⟩
        · exact .inl h
        · exact .inr ⟨rs, List.mem_cons_of_mem _ hrs, h⟩

theorem values_joinArgs (pss : List (List (Piece Naming))) :
    (joinArgs pss).filterMap Piece.value? = pss.flatMap (List.filterMap Piece.value?) := by
  fun_induction joinArgs pss with
  | case1 => rfl
  | case2 ps => simp
  | case3 ps qs pss ih =>
    rw [List.filterMap_append, List.filterMap_cons_none rfl, ih]
    rfl

theorem readInt?_ne_nil {t : Text} {value : Int} (h : readInt? t = some value) : t ≠ [] := by
  rintro rfl
  cases h

/-- The pieces of an argument spell it. -/
theorem source_argPieces {call arg : Text} {inner : List (Piece Naming)} (h : inner.flatMap Piece.source = arg) :
    (argPieces table call arg inner).flatMap Piece.source = arg := by
  unfold argPieces
  split
  · rename_i hvalue
    split
    · conv => rhs; rw [trim_between (readInt?_ne_nil hvalue)]
      simp [Piece.source]
    · exact source_plains arg
  · exact h

theorem written_argPieces {call arg : Text} {inner : List (Piece Naming)} {t : Text × List Text}
    (h : inner.flatMap writtenNaming = t.1) :
    (argPieces table call arg inner).flatMap writtenNaming = (namedArg table call arg t).1 := by
  unfold argPieces namedArg
  cases readInt? (trim arg) with
  | none => exact h
  | some value =>
    simp only
    cases lookup table call value with
    | none => exact written_plains arg
    | some constant => simp [writtenNaming, replaceCore]

theorem imports_argPieces {call arg : Text} {inner : List (Piece Naming)} {t : Text × List Text}
    (h : (inner.filterMap Piece.value?).flatMap (fun n => n.constant.importing.toList) = t.2) :
    ((argPieces table call arg inner).filterMap Piece.value?).flatMap (fun n => n.constant.importing.toList) =
      (namedArg table call arg t).2 := by
  unfold argPieces namedArg
  cases readInt? (trim arg) with
  | none => exact h
  | some value =>
    simp only
    cases lookup table call value with
    | none => simp
    | some constant => simp [List.filterMap_append, Piece.value?]

/-- **The pieces spell the source.** -/
theorem source_namings (t : Text) : (namings table names before written t).flatMap Piece.source = t.drop written := by
  induction before, written, t using scan_induction names with
  | nil before written => simp
  | plain before written c t hnone ih =>
    rw [namings_plain hnone, List.flatMap_append, ih, source_plains]
    cases written <;> simp
  | passed before written t call hcall hargs ih =>
    rw [namings_passed hcall hargs, List.flatMap_append, ih, source_plains]
    conv => rhs; rw [(callAt?_spec hcall).1, List.drop_append]
  | named before t call args rest hcall hargs ihargs ih =>
    obtain ⟨-, hrest⟩ := closedArgs?_spec hargs
    have hparts : ((splitArgs 0 args).map fun arg =>
        argPieces table call.name arg (namings table names none 0 arg)).map (List.flatMap Piece.source) = splitArgs 0 args := by
      rw [List.map_map]
      refine (List.map_congr_left fun arg harg => ?_).trans (List.map_id _)
      exact source_argPieces (ihargs arg harg)
    rw [namings_named hcall hargs, List.flatMap_append, List.flatMap_append, source_plains, List.flatMap_cons, ih,
      flatMap_joinArgs _ rfl, hparts, joinWith_splitArgs, List.drop_zero]
    conv => rhs; rw [(callAt?_spec hcall).1, hrest]
    rw [hrest, List.drop_append]
    simp [Piece.source]

/-- **The pieces say what is written.** -/
theorem written_namings (t : Text) :
    (namings table names before written t).flatMap writtenNaming = (nameCalls table names before written t).1 := by
  induction before, written, t using scan_induction names with
  | nil before written => simp [nameCalls]
  | plain before written c t hnone ih =>
    rw [namings_plain hnone, nameCalls_plain hnone, List.flatMap_append, ih, written_plains]
  | passed before written t call hcall hargs ih =>
    rw [namings_passed hcall hargs, nameCalls_passed hcall hargs, List.flatMap_append, ih, written_plains]
  | named before t call args rest hcall hargs ihargs ih =>
    have hparts : ((splitArgs 0 args).map fun arg =>
        argPieces table call.name arg (namings table names none 0 arg)).map (List.flatMap writtenNaming) =
        (splitArgs 0 args).map fun arg => (namedArg table call.name arg (nameCalls table names none 0 arg)).1 := by
      rw [List.map_map]
      exact List.map_congr_left fun arg harg => written_argPieces (ihargs arg harg)
    rw [namings_named hcall hargs, nameCalls_named hcall hargs, List.flatMap_append, List.flatMap_append, written_plains,
      List.flatMap_cons, ih, flatMap_joinArgs _ rfl, hparts]
    rfl

/-- **The pieces say what is imported.** -/
theorem imports_namings (t : Text) :
    ((namings table names before written t).filterMap Piece.value?).flatMap (fun n => n.constant.importing.toList) =
      (nameCalls table names before written t).2 := by
  induction before, written, t using scan_induction names with
  | nil before written => simp [nameCalls]
  | plain before written c t hnone ih =>
    rw [namings_plain hnone, nameCalls_plain hnone, List.filterMap_append, values_plains, List.nil_append, ih]
  | passed before written t call hcall hargs ih =>
    rw [namings_passed hcall hargs, nameCalls_passed hcall hargs, List.filterMap_append, values_plains, List.nil_append, ih]
  | named before t call args rest hcall hargs ihargs ih =>
    rw [namings_named hcall hargs, nameCalls_named hcall hargs, List.filterMap_append, List.filterMap_append,
      values_plains, List.nil_append, List.filterMap_cons_none rfl, values_joinArgs, List.flatMap_append, ih,
      List.flatMap_map, List.flatMap_assoc]
    congr 1
    exact List.flatMap_congr fun arg harg => imports_argPieces (ihargs arg harg)

/-- **What is replaced** is an integer that the table lists for the call. -/
theorem hit_namings {t literal : Text} {n : Naming} (h : .hit literal n ∈ namings table names before written t) :
    ∃ value, readInt? literal = some value ∧ lookup table n.call value = some n.constant := by
  induction before, written, t using scan_induction names with
  | nil before written => simp at h
  | plain before written c t hnone ih =>
    rw [namings_plain hnone, List.mem_append] at h
    exact ih (h.resolve_left hit_not_mem_plains)
  | passed before written t call hcall hargs ih =>
    rw [namings_passed hcall hargs, List.mem_append] at h
    exact ih (h.resolve_left hit_not_mem_plains)
  | named before t call args rest hcall hargs ihargs ih =>
    rw [namings_named hcall hargs, List.mem_append, List.mem_append, List.mem_cons] at h
    rcases h with (h | h) | h | h
    · exact absurd h hit_not_mem_plains
    · rcases mem_joinArgs h with h | ⟨ps, hps, h⟩
      · cases h
      · obtain ⟨arg, harg, rfl⟩ := List.mem_map.1 hps
        unfold argPieces at h
        split at h
        · rename_i value hvalue
          split at h
          · rename_i constant hconstant
            simp only [List.mem_append, List.mem_cons, hit_not_mem_plains, false_or, or_false, Piece.hit.injEq] at h
            obtain ⟨rfl, rfl⟩ := h
            exact ⟨value, hvalue, hconstant⟩
          · exact absurd h hit_not_mem_plains
        · exact ihargs arg harg h
    · cases h
    · exact ih h

/-! ## Texts -/

/-- The pieces of a text: the integers named in its code, and all other characters. -/
def textNamings (table : ConstantTable) (t : Text) : List (Piece Naming) :=
  (segments t).flatMap fun s =>
    if s.kind = .code then namings table (callNames table) none 0 s.text else plains s.text

/-- The pieces of a text spell it. -/
theorem source_textNamings (table : ConstantTable) (t : Text) : (textNamings table t).flatMap Piece.source = t := by
  conv => rhs; rw [← source_segments t, source]
  rw [textNamings, List.flatMap_assoc]
  refine List.flatMap_congr fun s _ => ?_
  split
  · rw [source_namings, List.drop_zero]
  · exact source_plains s.text

/-- **The pieces give the result**: the text with the constants written, and an import for each that needs one. -/
theorem nameConstants_eq (table : ConstantTable) (t : Text) :
    nameConstants table t =
      if (textNamings table t).flatMap writtenNaming = t then t
      else ((((textNamings table t).filterMap Piece.value?).flatMap fun n => n.constant.importing.toList).foldr
        insertText []).foldl ensureImport ((textNamings table t).flatMap writtenNaming) := by
  have hwritten : mapCode (fun code => (nameCalls table (callNames table) none 0 code).1) t =
      (textNamings table t).flatMap writtenNaming := by
    rw [mapCode, textNamings, List.flatMap_assoc]
    refine List.flatMap_congr fun s _ => ?_
    split
    · exact (written_namings s.text).symm
    · exact (written_plains s.text).symm
  have himports : collectCode (fun code => (nameCalls table (callNames table) none 0 code).2) t =
      ((textNamings table t).filterMap Piece.value?).flatMap fun n => n.constant.importing.toList := by
    rw [collectCode, textNamings, List.filterMap_flatMap, List.flatMap_assoc]
    refine List.flatMap_congr fun s _ => ?_
    split
    · exact (imports_namings s.text).symm
    · rw [values_plains]
      rfl
  rw [nameConstants]
  simp only [hwritten, himports]

end JavaMend.Java
