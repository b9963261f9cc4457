import JavaMend.Proofs.Java.CallScan
import JavaMend.Proofs.Java.NumeralValues

/-!
# `Proofs.Java.NamedOnce` — constants are named once and for all

A constant takes the place of an integer, and neither has brackets or commas. So the result has the calls of the source,
and each argument of the source is written to one argument of the result. No argument of the result is an integer with a
name, and naming it again changes nothing.

## Contents
- **Integers and names.** `plain_of_readInt?`, `isAsciiName_of_lookup`.
- **Written text.** `renamed`, `renamedArg`; `skeleton_renamed`, `CallIn.of_renamed`.
- **Naming twice.** `namings_renamed`.
-/

namespace JavaMend.Java

open JavaMend Text

/-! ## Integers and names -/

/-- An integer has no letters, brackets or commas. -/
theorem plain_of_readInt? {t : Text} {value : Int} (h : readInt? t = some value) :
    ∀ c ∈ t, opensAscii c = false ∧ isJoint c = false := by
  have hdigit {c : Char} (hc : isAsciiDigit c = true) : opensAscii c = false ∧ isJoint c = false := by
    refine ⟨?_, not_isJoint_of_inAsciiName (by simp [inAsciiName, hc])⟩
    rw [Bool.eq_false_iff]
    intro hopens
    simp only [opensAscii, isAsciiUpper, isAsciiLower, isAsciiDigit, Bool.or_eq_true, Bool.and_eq_true, decide_eq_true_eq,
      beq_iff_eq] at hopens hc
    rcases hopens with (hopens | hopens) | rfl
    · omega
    · omega
    · exact absurd hc (by decide)
  obtain ⟨sign, digits, n, rfl, hsign, hn⟩ := readInt?_spec h
  intro c hc
  rcases List.mem_append.1 hc with hc | hc
  · rcases hsign with rfl | rfl | rfl
    · cases hc
    · rw [List.mem_singleton.1 hc]
      decide
    · rw [List.mem_singleton.1 hc]
      decide
  · exact hdigit ((digitsValue?_eq_some hn).1 c hc)

/-- Nor has an integer with white space around it. -/
theorem plain_of_readInt?_trim {t : Text} {value : Int} (h : readInt? (trim t) = some value) :
    ∀ c ∈ t, opensAscii c = false ∧ isJoint c = false := by
  have hblank {c : Char} (hc : isBlank c = true) : opensAscii c = false ∧ isJoint c = false :=
    ⟨opensAscii_of_isBlank hc, not_isJoint_of_isBlank hc⟩
  intro c hc
  rw [trim_between (readInt?_ne_nil h)] at hc
  simp only [List.mem_append, List.mem_reverse] at hc
  rcases hc with (hc | hc) | hc
  · exact hblank (List.all_eq_true.1 List.all_takeWhile c hc)
  · exact plain_of_readInt? h c hc
  · exact hblank (List.all_eq_true.1 List.all_takeWhile c hc)

theorem isAsciiName_of_mem_calls {table : ConstantTable} (htable : hasAsciiNames table = true) {g : ConstantGroup}
    (hg : g ∈ table) {name : Text} (hname : name ∈ g.calls) : isAsciiName name = true :=
  List.all_eq_true.1 (Bool.and_eq_true_iff.1 (List.all_eq_true.1 htable g hg)).1 name hname

theorem isAsciiName_of_lookup {table : ConstantTable} (htable : hasAsciiNames table = true) {call : Text} {value : Int}
    {constant : Constant} (h : lookup table call value = some constant) : isAsciiName constant.name = true := by
  obtain ⟨g, hg, -, pair, hpair, hname⟩ := lookup_spec h
  rw [hname]
  exact List.all_eq_true.1 (Bool.and_eq_true_iff.1 (List.all_eq_true.1 htable g hg)).2 pair hpair

/-! ## Written text -/

/-- What is written for a stretch of code. -/
def renamed (table : ConstantTable) (names : List Text) (before : Option Char) (t : Text) : Text :=
  (namings table names before 0 t).flatMap writtenNaming

/-- What is written for an argument of a call. -/
def renamedArg (table : ConstantTable) (names : List Text) (call arg : Text) : Text :=
  (argPieces table call arg (namings table names none 0 arg)).flatMap writtenNaming

section
variable {table : ConstantTable} {names : List Text} {before : Option Char}

theorem skeleton_flatMap {ps : List (Piece Naming)} (h : ∀ p ∈ ps, skeleton p.source = skeleton (writtenNaming p)) :
    skeleton (ps.flatMap Piece.source) = skeleton (ps.flatMap writtenNaming) := by
  induction ps with
  | nil => rfl
  | cons p ps ih =>
    obtain ⟨hp, hps⟩ := List.forall_mem_cons.1 h
    rw [List.flatMap_cons, List.flatMap_cons, skeleton_append, skeleton_append, hp, ih hps]

theorem skeleton_joinWith_map {f : Text → Text} {args : List Text} (h : ∀ arg ∈ args, skeleton (f arg) = skeleton arg) :
    skeleton (joinWith [','] (args.map f)) = skeleton (joinWith [','] args) := by
  fun_induction joinWith [','] args with
  | case1 => rfl
  | case2 arg => exact h arg List.mem_cons_self
  | case3 arg a as ih =>
    obtain ⟨harg, hrest⟩ := List.forall_mem_cons.1 h
    have ih := ih hrest
    rw [List.map_cons] at ih ⊢
    rw [List.map_cons, joinWith, skeleton_append, skeleton_append, skeleton_append, skeleton_append, harg, ih]

theorem joinArgs_plains (ts : List Text) : joinArgs (ts.map plains) = plains (joinWith [','] ts) := by
  fun_induction joinWith [','] ts with
  | case1 => rfl
  | case2 t => rfl
  | case3 t u ts ih =>
    rw [List.map_cons, List.map_cons, joinArgs, ← List.map_cons, ih]
    simp [plains]

variable (htable : hasAsciiNames table = true)

section
include htable

/-- Neither an integer nor its name has a skeleton. -/
theorem skeleton_hit {literal : Text} {n : Naming} {value : Int} (hvalue : readInt? literal = some value)
    (hlookup : lookup table n.call value = some n.constant) :
    skeleton (Piece.hit literal n).source = skeleton (writtenNaming (.hit literal n)) := by
  have hliteral : skeleton literal = [] := skeleton_eq_nil fun c hc => (plain_of_readInt? hvalue c hc).2
  have hname : skeleton n.constant.name = [] := skeleton_eq_nil fun c hc =>
    not_isJoint_of_inAsciiName ((isAsciiName_spec (isAsciiName_of_lookup htable hlookup)).2 c hc)
  exact hliteral.trans hname.symm

theorem skeleton_mem_namings {p : Piece Naming} {t : Text} (h : p ∈ namings table names before 0 t) :
    skeleton p.source = skeleton (writtenNaming p) := by
  cases p with
  | plain c => rfl
  | hit literal n =>
    obtain ⟨value, hvalue, hlookup⟩ := hit_namings h
    exact skeleton_hit htable hvalue hlookup

/-- **The skeleton stays.** -/
theorem skeleton_renamed (before : Option Char) (t : Text) : skeleton (renamed table names before t) = skeleton t := by
  conv => rhs; rw [← List.drop_zero (l := t), ← @source_namings table names before 0 t]
  exact (skeleton_flatMap fun p hp => skeleton_mem_namings htable hp).symm

theorem skeleton_renamedArg (call arg : Text) : skeleton (renamedArg table names call arg) = skeleton arg := by
  unfold renamedArg argPieces
  split
  · rename_i value hvalue
    split
    · rename_i constant hlookup
      have hcore : skeleton (trim arg) = skeleton constant.name :=
        @skeleton_hit table htable _ ⟨call, constant⟩ _ hvalue hlookup
      conv => rhs; rw [trim_between (readInt?_ne_nil hvalue)]
      simp [writtenNaming, hcore]
    · rw [written_plains]
  · exact skeleton_renamed htable none arg

/-- The arguments of the result are those that the arguments of the source are written to. -/
theorem splitArgs_renamedArg (call args : Text) :
    splitArgs 0 (joinWith [','] ((splitArgs 0 args).map (renamedArg table names call))) =
      (splitArgs 0 args).map (renamedArg table names call) := by
  refine splitArgs_joinWith ((splits_splitArgs 0 args).congr ?_)
  rw [List.forall₂_map_left_iff, List.forall₂_same]
  exact fun arg _ => skeleton_renamedArg htable call arg

end

theorem paren_not_mem_name {name : Text} (hname : isAsciiName name = true) : '(' ∉ name := fun h =>
  absurd ((isAsciiName_spec hname).2 _ h) (by decide)

theorem paren_not_mem_gap {gap : Text} (hgap : ∀ c ∈ gap, isBlank c = true) : '(' ∉ gap := fun h =>
  absurd (hgap _ h) (by decide)

variable (hnames : ∀ name ∈ names, isAsciiName name = true)

section
include hnames

/-- Nothing is named before the first parenthesis. -/
theorem namings_opening (before : Option Char) (t : Text) :
    ∃ u ps, namings table names before 0 t = plains u ++ ps ∧ '(' ∉ u ∧ (ps = [] ∨ ∃ qs, ps = .plain '(' :: qs) := by
  induction before, t using call_induction names with
  | nil before => exact ⟨[], [], namings_nil, by simp, .inl rfl⟩
  | char before c t hcall ih =>
    obtain ⟨u, ps, hps, hu, hopens⟩ := ih
    rw [namings_char hnames hcall]
    by_cases hc : c = '('
    · exact ⟨[], _, rfl, by simp, .inr ⟨_, by rw [hc]⟩⟩
    · refine ⟨c :: u, ps, by rw [hps]; rfl, ?_, hopens⟩
      simp only [List.mem_cons, not_or]
      exact ⟨Ne.symm hc, hu⟩
  | call before t call post hcall _ _ =>
    have hhead : plains call.head = plains (call.name ++ call.gap) ++ [.plain '('] := List.map_append ..
    rw [namings_call hnames hcall, hhead, List.append_assoc, List.append_assoc]
    refine ⟨call.name ++ call.gap, _, rfl, ?_, .inr ⟨_, rfl⟩⟩
    simp only [List.mem_append, not_or]
    exact ⟨paren_not_mem_name (hnames _ hcall.listed), paren_not_mem_gap hcall.gap⟩

/-- Where no parenthesis opens, nothing is named. -/
theorem namings_of_no_paren {t : Text} (h : '(' ∉ t) : namings table names before 0 t = plains t := by
  obtain ⟨u, ps, hps, -, hopens⟩ := @namings_opening table _ hnames before t
  have hsource := @source_namings table names before 0 t
  rw [hps, List.flatMap_append, source_plains, List.drop_zero] at hsource
  rcases hopens with rfl | ⟨qs, rfl⟩
  · rw [hps, ← hsource]
    simp
  · exact absurd (hsource ▸ by simp [Piece.source]) h

include htable

/-- **A call of the result is a call of the source.** -/
theorem CallIn.of_renamed {c : Char} {t post : Text} {call : Call}
    (h : CallIn names before (c :: renamed table names (some c) t) [] call post) :
    ∃ call' post', CallIn names before (c :: t) [] call' post' := by
  obtain ⟨⟨d, name, hname, -⟩, -⟩ := isAsciiName_spec (hnames _ h.listed)
  have hnone : '(' ∉ name ++ call.gap := by
    have hparen := paren_not_mem_name (hnames _ h.listed)
    rw [hname] at hparen
    simp only [List.mem_append, not_or]
    exact ⟨fun hc => hparen (List.mem_cons_of_mem d hc), paren_not_mem_gap h.gap⟩
  have hspells := h.spells
  simp only [Call.text, Call.head, hname, List.nil_append, List.append_assoc, List.cons_append] at hspells
  obtain ⟨rfl, hwritten⟩ := List.cons.inj hspells
  obtain ⟨u, ps, hps, hu, hopens⟩ := @namings_opening table _ hnames (some c) t
  have hsource := @source_namings table names (some c) 0 t
  rw [renamed, hps, List.flatMap_append, written_plains] at hwritten
  rw [hps, List.flatMap_append, source_plains, List.drop_zero] at hsource
  -- The text before the parenthesis stays, and the skeleton of the text behind it.
  rcases hopens with rfl | ⟨qs, rfl⟩
  · exact absurd (hwritten ▸ by simp : '(' ∈ u ++ []) (by simpa using hu)
  · have hmem (p : Piece Naming) (hp : p ∈ qs) : skeleton p.source = skeleton (writtenNaming p) :=
      skeleton_mem_namings htable (by rw [hps]; simp [hp])
    have hrun {x : Text} (hx : '(' ∉ x) (y : Text) : (x ++ '(' :: y).takeWhile (· != '(') = x := by
      rw [takeWhile_append_cons (by decide), List.takeWhile_eq_self_iff]
      exact fun e he => bne_iff_ne.2 fun heq => hx (heq ▸ he)
    have hwritten : u ++ '(' :: qs.flatMap writtenNaming = (name ++ call.gap) ++ '(' :: (call.args ++ ')' :: post) := by
      simpa [writtenNaming] using hwritten
    obtain rfl : u = name ++ call.gap := by rw [← hrun hu, hwritten, hrun hnone]
    have hrest := (List.cons.inj (List.append_cancel_left hwritten)).2
    obtain ⟨args, post', hsplit, hargs, -⟩ := exists_cons_of_skeleton (by decide) (skeleton_flatMap hmem) hrest
    refine ⟨⟨call.name, call.gap, args⟩, post', ?_, h.listed, h.gap, h.balanced.congr hargs, h.apart⟩
    rw [← hsource, List.flatMap_cons, hsplit]
    simp [Call.text, Call.head, hname, Piece.source]

/-! ## Naming twice -/

omit htable hnames in
/-- A text that holds a letter or a parenthesis is no integer, so only the calls in it are named. -/
theorem argPieces_of_mem (call : Text) {t : Text} {c : Char} (hc : c ∈ t) (h : opensAscii c = true ∨ isJoint c = true)
    (inner : List (Piece Naming)) : argPieces table call t inner = inner := by
  unfold argPieces
  split
  · rename_i value hvalue
    obtain ⟨hopens, hjoint⟩ := plain_of_readInt?_trim hvalue c hc
    simp [hopens, hjoint] at h
  · rfl

/-- An argument that was written is no integer with a name, and the calls in it are not named again. -/
theorem argPieces_renamedArg (call arg : Text)
    (h : namings table names none 0 (renamed table names none arg) = plains (renamed table names none arg)) :
    argPieces table call (renamedArg table names call arg) (namings table names none 0 (renamedArg table names call arg)) =
      plains (renamedArg table names call arg) := by
  cases hvalue : readInt? (trim arg) with
  | none =>
    have hsame : renamedArg table names call arg = renamed table names none arg := by
      rw [renamedArg, argPieces, hvalue]
      rfl
    rw [hsame]
    by_cases hparen : '(' ∈ renamed table names none arg
    · rw [argPieces_of_mem call hparen (.inr (by decide)), h]
    · -- Without a parenthesis the argument stays, and it was no integer.
      have hplain : '(' ∉ arg := fun hmem => by
        obtain ⟨a, b, harg⟩ := List.append_of_mem hmem
        obtain ⟨a', b', hspells, -⟩ := exists_cons_of_skeleton (by decide) (skeleton_renamed htable none arg) harg
        exact hparen (hspells ▸ by simp)
      have hstays : renamed table names none arg = arg := by
        rw [renamed, namings_of_no_paren hnames hplain, written_plains]
      rw [hstays, argPieces, hvalue, namings_of_no_paren hnames hplain]
  | some value =>
    cases hlookup : lookup table call value with
    | none =>
      have hstays : renamedArg table names call arg = arg := by
        rw [renamedArg, argPieces, hvalue]
        simp only [hlookup]
        exact written_plains arg
      rw [hstays, argPieces, hvalue]
      simp only [hlookup]
    | some constant =>
      obtain ⟨⟨c, rest, hname, hopens⟩, hchars⟩ := isAsciiName_spec (isAsciiName_of_lookup htable hlookup)
      have hwritten : renamedArg table names call arg =
          arg.takeWhile isBlank ++ constant.name ++ (arg.reverse.takeWhile isBlank).reverse := by
        rw [renamedArg, argPieces, hvalue]
        simp [hlookup, writtenNaming]
      have hmem : c ∈ renamedArg table names call arg := by simp [hwritten, hname]
      have hparen : '(' ∉ renamedArg table names call arg := by
        rw [hwritten]
        simp only [List.mem_append, List.mem_reverse, not_or]
        exact ⟨⟨paren_not_mem_gap (List.all_eq_true.1 List.all_takeWhile), fun hc => absurd (hchars _ hc) (by decide)⟩,
          paren_not_mem_gap (List.all_eq_true.1 List.all_takeWhile)⟩
      rw [argPieces_of_mem call hmem (.inl hopens), namings_of_no_paren hnames hparen]

/-- **In what is written nothing is named.** -/
theorem namings_renamed (before : Option Char) (t : Text) :
    namings table names before 0 (renamed table names before t) = plains (renamed table names before t) := by
  induction before, t using call_induction names with
  | nil before =>
    have hnil : renamed table names before [] = [] := by
      rw [renamed, namings_nil]
      rfl
    rw [hnil, namings_nil]
    rfl
  | char before c t hcall ih =>
    have hwritten : renamed table names before (c :: t) = c :: renamed table names (some c) t := by
      rw [renamed, namings_char hnames hcall]
      rfl
    have hnone (call : Call) (post : Text) : ¬ CallIn names before (c :: renamed table names (some c) t) [] call post := by
      intro hin
      obtain ⟨call', post', hin'⟩ := hin.of_renamed htable hnames
      exact hcall call' post' hin'
    rw [hwritten, namings_char hnames hnone, ih]
    rfl
  | call before t call post hcall ihargs ih =>
    have hwritten : renamed table names before t =
        call.head ++ joinWith [','] ((splitArgs 0 call.args).map (renamedArg table names call.name))
          ++ ')' :: renamed table names (some ')') post := by
      rw [renamed, namings_call hnames hcall, List.flatMap_append, List.flatMap_append, written_plains,
        flatMap_joinArgs _ rfl, List.map_map, List.flatMap_cons]
      rfl
    have hargs : skeleton (joinWith [','] ((splitArgs 0 call.args).map (renamedArg table names call.name))) =
        skeleton call.args := by
      rw [skeleton_joinWith_map fun arg _ => skeleton_renamedArg htable call.name arg, joinWith_splitArgs]
    have hin : CallIn names before (renamed table names before t) []
        ⟨call.name, call.gap, joinWith [','] ((splitArgs 0 call.args).map (renamedArg table names call.name))⟩
        (renamed table names (some ')') post) := by
      refine ⟨?_, hcall.listed, hcall.gap, hcall.balanced.congr hargs, hcall.apart⟩
      rw [hwritten]
      simp [Call.text, Call.head]
    have hparts : (((splitArgs 0 call.args).map (renamedArg table names call.name)).map fun arg =>
        argPieces table call.name arg (namings table names none 0 arg)) =
        ((splitArgs 0 call.args).map (renamedArg table names call.name)).map plains := by
      rw [List.map_map, List.map_map]
      exact List.map_congr_left fun arg harg => argPieces_renamedArg htable hnames call.name arg (ihargs arg harg)
    rw [namings_call hnames hin, splitArgs_renamedArg htable, hparts, joinArgs_plains, ih, hwritten]
    simp [plains, Call.head]

end

end

end JavaMend.Java
