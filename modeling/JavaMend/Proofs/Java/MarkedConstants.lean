import JavaMend.Java.Builtin
import JavaMend.Proofs.Java.MarkedImports
import JavaMend.Proofs.Java.NamingScan

/-!
# `Proofs.Java.MarkedConstants` — naming constants uses numbers up

An integer argument opens with a digit behind a bracket, a comma, a blank or a sign; the name that stands for it opens
no number. So naming takes a mark away for every argument that it replaces, and the import that it adds holds none.

## Contents
- **Arguments.** `namePrice`, `isHarmless`; `sheds_replaceCore`.
- **Naming.** `harmless`, `ImportsOf`; `namedArg_spec`, `nameCalls_spec`.
- **Texts.** `tally_nameConstants`.
-/

namespace JavaMend.Java

open JavaMend Text

variable {m : Mark} {k : Nat}

/-! ## Arguments -/

/-- What a named integer takes away. -/
def namePrice : Mark → Nat
  | .number => 1
  | _       => 0

/-- The name has no marks and ends with a character behind which the least is counted. -/
def isHarmless (name : Text) : Bool :=
  (Mark.all.all fun m => tally m none name == 0) && name.getLast?.any fun d => inClassName d && d != 'c'

theorem digits_of_digitsValue? {t : Text} {n : Nat} (h : digitsValue? t = some n) :
    ∃ d r, t = d :: r ∧ isAsciiDigit d = true := by
  unfold digitsValue? at h
  split at h
  · cases h
  · rename_i hdigits
    cases t with
    | nil => exact absurd rfl hdigits
    | cons d r =>
      simp only [List.isEmpty_cons, Bool.false_or, List.all_cons, Bool.not_eq_true, Bool.not_eq_false',
        Bool.and_eq_true] at hdigits
      exact ⟨d, r, rfl, hdigits.1⟩

/-- An integer has digits, behind a sign or not. -/
theorem readInt?_spec {t : Text} {value : Int} (h : readInt? t = some value) :
    ∃ sign digits n, t = sign ++ digits ∧ (sign = [] ∨ sign = ['-'] ∨ sign = ['+']) ∧ digitsValue? digits = some n := by
  unfold readInt? at h
  split at h
  · obtain ⟨_, hbind, -⟩ := Option.map_eq_some_iff.1 h
    obtain ⟨n, hn, -⟩ := Option.bind_eq_some_iff.1 hbind
    exact ⟨['-'], _, n, rfl, .inr (.inl rfl), (Option.filter_eq_some_iff.1 hn).1⟩
  · obtain ⟨n, hn, -⟩ := Option.map_eq_some_iff.1 h
    exact ⟨['+'], _, n, rfl, .inr (.inr rfl), (Option.filter_eq_some_iff.1 hn).1⟩
  · obtain ⟨n, hn, -⟩ := Option.map_eq_some_iff.1 h
    exact ⟨[], _, n, rfl, .inl rfl, (Option.filter_eq_some_iff.1 hn).1⟩

/-- An integer opens a number, behind its sign if it has one. -/
theorem namePrice_le {core : Text} {value : Int} (h : readInt? core = some value) : namePrice m ≤ tally m none core := by
  cases m with
  | number =>
    have hfirst {before : Option Char} (hb : before.any inClassName = false) {d : Char} (hd : isAsciiDigit d = true)
        (r : Text) : 1 ≤ tally .number before (d :: r) := by
      rw [tally_cons, Mark.marks, hd, hb]
      exact Nat.le_add_right 1 _
    obtain ⟨sign, digits, n, rfl, hsign, hn⟩ := readInt?_spec h
    obtain ⟨d, r, rfl, hd⟩ := digits_of_digitsValue? hn
    rcases hsign with rfl | rfl | rfl
    · exact hfirst rfl hd r
    · exact Nat.le_trans (hfirst (by decide) hd r) (Nat.le_add_left _ _)
    · exact Nat.le_trans (hfirst (by decide) hd r) (Nat.le_add_left _ _)
  | _ => exact Nat.zero_le _

/-- A text that is not blank lies between white space. -/
theorem trim_between {t : Text} (h : trim t ≠ []) :
    t = t.takeWhile isBlank ++ trim t ++ (t.reverse.takeWhile isBlank).reverse := by
  have hstart : t.takeWhile isBlank ++ trimStart t = t := List.takeWhile_append_dropWhile
  have hend (u : Text) : trimEnd u ++ (u.reverse.takeWhile isBlank).reverse = u := by
    rw [trimEnd, ← List.reverse_append, List.takeWhile_append_dropWhile, List.reverse_reverse]
  have htail : (trimStart t).reverse.takeWhile isBlank = t.reverse.takeWhile isBlank := by
    conv => rhs; rw [← hstart, List.reverse_append, List.takeWhile_append]
    split
    · rename_i hall
      have hlength := congrArg List.length (hend (trimStart t))
      rw [List.length_append, List.length_reverse, hall, List.length_reverse] at hlength
      have hzero : (trim t).length = 0 := by
        rw [trim]
        omega
      exact absurd (List.length_eq_zero_iff.1 hzero) h
    · rfl
  conv => lhs; rw [← hstart, ← hend (trimStart t), htail]
  rw [List.append_assoc, trim]

/-- Characters that stand in no name leave such a character before what follows. -/
theorem endOf_gaps {b : Char} (hb : inClassName b = false) {t : Text} (h : ∀ c ∈ t, inClassName c = false) :
    ∃ d, endOf (some b) t = some d ∧ inClassName d = false := by
  induction t generalizing b with
  | nil => exact ⟨b, rfl, hb⟩
  | cons c t ih =>
    obtain ⟨hc, ht⟩ := List.forall_mem_cons.1 h
    exact ih hc ht

/-- **A named argument** has a mark less, behind a bracket or a comma. -/
theorem sheds_replaceCore {sep : Char} {arg name : Text} {value : Int} (hsep : inClassName sep = false)
    (hvalue : readInt? (trim arg) = some value) (hname : isHarmless name = true) :
    Sheds m (namePrice m) (sep :: arg) (sep :: replaceCore arg name) := by
  have hcore : trim arg ≠ [] := by
    intro hnil
    rw [hnil] at hvalue
    cases hvalue
  simp only [isHarmless, Bool.and_eq_true, Option.any_eq_true, bne_iff_ne] at hname
  obtain ⟨hmarks, d, hd, hclass, hc⟩ := hname
  have htally : tally m none name = 0 := beq_iff_eq.1 (List.all_eq_true.1 hmarks m m.mem_all)
  obtain ⟨name', rfl⟩ := List.getLast?_eq_some_iff.1 hd
  have hlead : ∀ c ∈ arg.takeWhile isBlank, inClassName c = false := fun c hc =>
    inClassName_of_isBlank (List.all_eq_true.1 List.all_takeWhile c hc)
  have hgap (before : Option Char) (t : Text) :
      tally m before (sep :: arg.takeWhile isBlank ++ t) = tally m before (sep :: arg.takeWhile isBlank) + tally m none t := by
    obtain ⟨b, hb, hgap⟩ := endOf_gaps hsep hlead
    rw [tally_append, endOf, hb, tally_after_gap hgap]
  have hnamed : Sheds m (namePrice m) (sep :: arg.takeWhile isBlank ++ trim arg)
      ((sep :: arg.takeWhile isBlank ++ name') ++ [d]) := by
    refine Sheds.replace (fun before => ?_) fun before c hmark => m.marks_of_inClassName hclass hc hmark _
    have hprice := namePrice_le (m := m) hvalue
    rw [List.append_assoc, hgap, hgap, htally]
    omega
  have hwhole := hnamed.append (Sheds.refl m (arg.reverse.takeWhile isBlank).reverse)
  conv => arg 3; rw [trim_between hcore]
  simpa [replaceCore] using hwhole

/-! ## Naming -/

/-- Every name of the table can stand where an integer stood. -/
def harmless (table : ConstantTable) : Bool := table.all fun g => g.values.all fun pair => isHarmless pair.2

theorem mem_of_agreed? {cs : List Constant} {constant : Constant} (h : agreed? cs = some constant) : constant ∈ cs := by
  unfold agreed? at h
  split at h
  · cases h
  · split at h
    · cases h
      exact List.mem_cons_self
    · cases h

theorem lookup_spec {table : ConstantTable} {call : Text} {value : Int} {constant : Constant}
    (h : lookup table call value = some constant) :
    ∃ g ∈ table, constant.importing = g.importing ∧ ∃ pair ∈ g.values, constant.name = pair.2 := by
  obtain ⟨g, hg, hconstant⟩ := List.mem_filterMap.1 (mem_of_agreed? h)
  obtain ⟨pair, hpair, rfl⟩ := Option.map_eq_some_iff.1 hconstant
  exact ⟨g, List.mem_of_mem_filter hg, rfl, pair, List.mem_of_find?_eq_some hpair, rfl⟩

/-- Arguments in a row pay if each does behind its bracket or comma. -/
theorem pays_joinWith {α : Type} {as : List α} {f g : α → Text}
    (h : ∀ a ∈ as, ∀ sep, inClassName sep = false → Pays m k (sep :: f a) (sep :: g a)) (sep : Char)
    (hsep : inClassName sep = false) :
    Pays m k (sep :: joinWith [','] (as.map f)) (sep :: joinWith [','] (as.map g)) := by
  induction as generalizing sep with
  | nil => exact .refl m k _
  | cons a as ih =>
    obtain ⟨ha, has⟩ := List.forall_mem_cons.1 h
    cases as with
    | nil => exact ha sep hsep
    | cons b bs =>
      have hrest := ih has ',' (by decide)
      simpa [joinWith] using (ha sep hsep).append hrest

/-- The targets are imports of the table. -/
def ImportsOf (table : ConstantTable) (targets : List Text) : Prop :=
  ∀ target ∈ targets, ∃ g ∈ table, g.importing = some target

theorem namedArg_spec {table : ConstantTable} (htable : harmless table = true) (call arg : Text)
    {inner : Text × List Text} (hpays : Pays m (namePrice m) arg inner.1) (himports : ImportsOf table inner.2) :
    (∀ sep, inClassName sep = false → Pays m (namePrice m) (sep :: arg) (sep :: (namedArg table call arg inner).1))
      ∧ ImportsOf table (namedArg table call arg inner).2 := by
  unfold namedArg
  split
  · rename_i value hvalue
    split
    · rename_i constant hconstant
      obtain ⟨g, hg, himporting, pair, hpair, hname⟩ := lookup_spec hconstant
      have hharmless : isHarmless constant.name = true := by
        rw [hname]
        exact List.all_eq_true.1 (List.all_eq_true.1 htable g hg) pair hpair
      refine ⟨fun sep hsep => .inr (sheds_replaceCore hsep hvalue hharmless), fun target htarget => ⟨g, hg, ?_⟩⟩
      rw [← himporting]
      exact Option.mem_toList.1 htarget
    · exact ⟨fun sep _ => .refl m _ _, fun target htarget => absurd htarget List.not_mem_nil⟩
  · exact ⟨fun sep _ => hpays.cons sep, himports⟩

/-- **Naming the constants of a stretch of code** pays for every argument it replaces and imports what the table says. -/
theorem nameCalls_spec {table : ConstantTable} (htable : harmless table = true) (names : List Text)
    (before : Option Char) (written : Nat) (t : Text) :
    Pays m (namePrice m) (t.drop written) (nameCalls table names before written t).1
      ∧ ImportsOf table (nameCalls table names before written t).2 := by
  induction before, written, t using scan_induction names with
  | nil before written =>
    rw [nameCalls, List.drop_nil]
    exact ⟨.refl m _ [], fun target htarget => absurd htarget List.not_mem_nil⟩
  | plain before written c t hnone ih =>
    obtain ⟨hpays, himports⟩ := ih
    rw [nameCalls_plain hnone]
    refine ⟨?_, himports⟩
    cases written with
    | zero => exact hpays.cons c
    | succ written => exact hpays
  | passed before written t call hcall hargs ih =>
    obtain ⟨hpays, himports⟩ := ih
    have hsource : t.drop written = call.head.drop written ++ call.rest.drop (written - call.head.length) := by
      rw [(callAt?_spec hcall).1, List.drop_append]
    rw [nameCalls_passed hcall hargs, hsource]
    exact ⟨(Pays.refl m _ _).append hpays, himports⟩
  | named before t call args rest hcall hargs ihargs ih =>
    obtain ⟨hspell, s, hhead⟩ := callAt?_spec hcall
    obtain ⟨-, hrest⟩ := closedArgs?_spec hargs
    obtain ⟨hpays, himports⟩ := ih
    have harg : ∀ arg ∈ splitArgs 0 args, _ := fun arg harg =>
      namedArg_spec htable call.name arg (ihargs arg harg).1 (ihargs arg harg).2
    rw [nameCalls_named hcall hargs]
    constructor
    · have hjoined := pays_joinWith (f := id) (fun arg h => (harg arg h).1) '(' (by decide)
      rw [List.map_id, joinWith_splitArgs] at hjoined
      have hdrop : call.rest.drop (args.length + 1) = rest := by
        rw [hrest]
        simp
      have hsource : t.drop 0 = s ++ '(' :: args ++ ')' :: rest := by
        rw [List.drop_zero, hspell, hhead, hrest]
        simp
      rw [hdrop] at hpays
      have hwhole := ((Pays.refl m (namePrice m) s).append hjoined).append (hpays.cons ')')
      rw [hsource, hhead]
      simpa using hwhole
    · intro target htarget
      rcases List.mem_append.1 htarget with htarget | htarget
      · obtain ⟨arg, hmem, htarget⟩ := List.mem_flatMap.1 htarget
        exact (harg arg hmem).2 target htarget
      · exact himports target htarget

/-! ## Texts -/

theorem mem_insertText {t u : Text} {us : List Text} : u ∈ insertText t us ↔ u = t ∨ u ∈ us := by
  induction us with
  | nil => simp [insertText]
  | cons v vs ih =>
    unfold insertText
    split
    · rename_i h
      subst h
      simp
    · split
      · simp
      · rw [List.mem_cons, List.mem_cons, ih, or_left_comm]

theorem mem_foldr_insertText {u : Text} {ts : List Text} : u ∈ ts.foldr insertText [] ↔ u ∈ ts := by
  induction ts with
  | nil => simp
  | cons t ts ih => rw [List.foldr_cons, mem_insertText, ih, List.mem_cons]

theorem tally_foldl_ensureImport_le {targets : List Text} (h : ∀ target ∈ targets, tally m none target = 0) (t : Text) :
    tally m none (targets.foldl ensureImport t) ≤ tally m none t := by
  induction targets generalizing t with
  | nil => exact Nat.le_refl _
  | cons target targets ih =>
    obtain ⟨htarget, htargets⟩ := List.forall_mem_cons.1 h
    exact Nat.le_trans (ih htargets _) (tally_ensureImport_le htarget t)

theorem harmless_builtinConstants : harmless builtinConstants = true := by decide +kernel

/-- The types that are imported for constants hold no marks. -/
theorem tally_builtinImport (m : Mark) {g : ConstantGroup} (hg : g ∈ builtinConstants) {target : Text}
    (h : g.importing = some target) : tally m none target = 0 := by
  have hall : (builtinConstants.all fun g =>
      g.importing.all fun target => Mark.all.all fun m => tally m none target == 0) = true := by decide +kernel
  have hgroup := List.all_eq_true.1 hall g hg
  rw [h] at hgroup
  exact beq_iff_eq.1 (List.all_eq_true.1 hgroup m m.mem_all)

/-- **Naming constants adds no marks**, and takes some away if an argument is named. -/
theorem tally_nameConstants (t : Text) :
    nameConstants builtinConstants t = t
      ∨ tally m none (nameConstants builtinConstants t) + namePrice m ≤ tally m none t := by
  have hspec (code : Text) := nameCalls_spec (m := m) harmless_builtinConstants (callNames builtinConstants) none 0 code
  unfold nameConstants
  simp only
  split
  · exact .inl rfl
  · rename_i hchanged
    rcases Pays.mapCode (fun code => (hspec code).1) t with hsame | hsheds
    · exact absurd hsame hchanged
    · have hnamed := hsheds.le none
      refine .inr (Nat.le_trans (Nat.add_le_add_right (tally_foldl_ensureImport_le (fun target htarget => ?_) _) _) hnamed)
      obtain ⟨s, -, htarget⟩ := List.mem_flatMap.1 (mem_foldr_insertText.1 htarget)
      split at htarget
      · obtain ⟨g, hg, himporting⟩ := (hspec s.text).2 target htarget
        exact tally_builtinImport m hg himporting
      · cases htarget

end JavaMend.Java
