import JavaMend.Proofs.Java.CallPlaces
import JavaMend.Proofs.Java.NamedOnce

/-!
# `Proofs.Java.NamedExactly` — which integers give way to a constant

An integer can be named if it is a whole argument of a call, at any depth, and the groups that list it for the call have
one name for it. Only such integers are replaced, and all of them are if no call is cut by a comma of a call around it.

## Contents
- **Replaced places.** `HitAt`; `hitAt_cons`, `hitAt_append`, `hitAt_joinArgs`.
- **Integers that can be named.** `Agrees`, `ArgumentOf`, `Nameable`; `lookup_iff`.
- **One call.** `hitAt_argPieces`, `hitAt_namings_char`, `hitAt_namings_call`.
- **A stretch of code.** `nameable_of_hitAt`, `hitAt_of_nameable`; `namesExactly_nameCalls`.
-/

namespace JavaMend.Java

open JavaMend Text

/-! ## Replaced places -/

/-- A literal is replaced by a name, between the text before it and the text behind it. -/
def HitAt (ps : List (Piece Naming)) (pre literal name post : Text) : Prop :=
  ∃ qs n rs, ps = qs ++ .hit literal n :: rs ∧ qs.flatMap Piece.source = pre ∧ n.constant.name = name
    ∧ rs.flatMap Piece.source = post

section
variable {pre literal name post : Text}

theorem not_hitAt_nil : ¬ HitAt [] pre literal name post := by
  rintro ⟨qs, n, rs, h, -⟩
  simp at h

theorem hitAt_cons {p : Piece Naming} {ps : List (Piece Naming)} :
    HitAt (p :: ps) pre literal name post ↔
      (∃ n, p = .hit literal n ∧ pre = [] ∧ n.constant.name = name ∧ ps.flatMap Piece.source = post)
        ∨ ∃ pre', pre = p.source ++ pre' ∧ HitAt ps pre' literal name post := by
  constructor
  · rintro ⟨qs, n, rs, h, rfl, hname, hpost⟩
    cases qs with
    | nil =>
      obtain ⟨rfl, rfl⟩ := List.cons.inj h
      exact .inl ⟨n, rfl, rfl, hname, hpost⟩
    | cons q qs =>
      obtain ⟨rfl, rfl⟩ := List.cons.inj h
      exact .inr ⟨_, rfl, qs, n, rs, rfl, rfl, hname, hpost⟩
  · rintro (⟨n, rfl, rfl, hname, hpost⟩ | ⟨_, rfl, qs, n, rs, rfl, rfl, hname, hpost⟩)
    · exact ⟨[], n, ps, rfl, rfl, hname, hpost⟩
    · exact ⟨p :: qs, n, rs, rfl, rfl, hname, hpost⟩

theorem hitAt_plain_cons {c : Char} {ps : List (Piece Naming)} :
    HitAt (.plain c :: ps) pre literal name post ↔ ∃ pre', pre = c :: pre' ∧ HitAt ps pre' literal name post := by
  rw [hitAt_cons]
  constructor
  · rintro (⟨n, h, -⟩ | h)
    · cases h
    · exact h
  · exact .inr

theorem hitAt_here (literal : Text) (n : Naming) (ps : List (Piece Naming)) :
    HitAt (.hit literal n :: ps) [] literal n.constant.name (ps.flatMap Piece.source) :=
  hitAt_cons.2 (.inl ⟨n, rfl, rfl, rfl, rfl⟩)

theorem hitAt_behind {p : Piece Naming} {ps : List (Piece Naming)} (hp : p.source ≠ []) :
    HitAt (p :: ps) (p.source ++ pre) literal name post ↔ HitAt ps pre literal name post := by
  rw [hitAt_cons]
  constructor
  · rintro (⟨n, -, hpre, -⟩ | ⟨pre', hpre, h⟩)
    · exact absurd (List.append_eq_nil_iff.1 hpre).1 hp
    · rwa [List.append_cancel_left hpre]
  · exact fun h => .inr ⟨pre, rfl, h⟩

theorem not_hitAt_plains {t : Text} : ¬ HitAt (plains t) pre literal name post := by
  rintro ⟨qs, n, rs, h, -⟩
  exact hit_not_mem_plains (h ▸ List.mem_append_right qs List.mem_cons_self)

theorem hitAt_append {ps qs : List (Piece Naming)} :
    HitAt (ps ++ qs) pre literal name post ↔
      (∃ post', post = post' ++ qs.flatMap Piece.source ∧ HitAt ps pre literal name post')
        ∨ ∃ pre', pre = ps.flatMap Piece.source ++ pre' ∧ HitAt qs pre' literal name post := by
  induction ps generalizing pre with
  | nil => simp [not_hitAt_nil]
  | cons p ps ih =>
    rw [List.cons_append, hitAt_cons]
    simp only [ih, hitAt_cons, List.flatMap_append, List.flatMap_cons]
    constructor
    · rintro (⟨n, hp, hpre, hname, rfl⟩ | ⟨_, rfl, ⟨post', hpost, h⟩ | ⟨pre', rfl, h⟩⟩)
      · exact .inl ⟨_, rfl, .inl ⟨n, hp, hpre, hname, rfl⟩⟩
      · exact .inl ⟨post', hpost, .inr ⟨_, rfl, h⟩⟩
      · exact .inr ⟨pre', by rw [List.append_assoc], h⟩
    · rintro (⟨post', rfl, ⟨n, hp, hpre, hname, rfl⟩ | ⟨pre', rfl, h⟩⟩ | ⟨pre', rfl, h⟩)
      · exact .inl ⟨n, hp, hpre, hname, rfl⟩
      · exact .inr ⟨pre', rfl, .inl ⟨post', rfl, h⟩⟩
      · exact .inr ⟨_, by rw [List.append_assoc], .inr ⟨pre', rfl, h⟩⟩

theorem hitAt_plains_append {t : Text} {ps : List (Piece Naming)} :
    HitAt (plains t ++ ps) pre literal name post ↔ ∃ pre', pre = t ++ pre' ∧ HitAt ps pre' literal name post := by
  simp [hitAt_append, not_hitAt_plains]

/-- A place in arguments that are joined is a place in one of them. -/
theorem hitAt_joinArgs {f : Text → List (Piece Naming)} {args : List Text}
    (hf : ∀ arg ∈ args, (f arg).flatMap Piece.source = arg) :
    HitAt (joinArgs (args.map f)) pre literal name post ↔
      ∃ l arg r a b, args = l ++ arg :: r ∧ HitAt (f arg) a literal name b
        ∧ pre = l.flatMap (· ++ [',']) ++ a ∧ post = b ++ r.flatMap (',' :: ·) := by
  induction args generalizing pre with
  | nil => simp [joinArgs, not_hitAt_nil]
  | cons x args ih =>
    obtain ⟨hx, hrest⟩ := List.forall_mem_cons.1 hf
    have hsource : (joinArgs (args.map f)).flatMap Piece.source = joinWith [','] args := by
      rw [flatMap_joinArgs _ rfl, List.map_map]
      exact congrArg _ ((List.map_congr_left hrest).trans (List.map_id _))
    cases args with
    | nil =>
      have hone : joinArgs ([x].map f) = f x := rfl
      rw [hone]
      constructor
      · intro h
        exact ⟨[], x, [], pre, post, rfl, h, rfl, by simp⟩
      · rintro ⟨l, arg, r, a, b, hargs, h, rfl, rfl⟩
        cases l with
        | nil =>
          obtain ⟨rfl, rfl⟩ := List.cons.inj hargs
          simpa using h
        | cons y l => simp at hargs
    | cons y ys =>
      rw [List.map_cons, List.map_cons, joinArgs, ← List.map_cons, hitAt_append, hx, List.flatMap_cons, hsource]
      simp only [hitAt_plain_cons, ih hrest]
      constructor
      · rintro (⟨b, rfl, h⟩ | ⟨_, rfl, _, rfl, l, arg, r, a, b, hargs, h, rfl, rfl⟩)
        · refine ⟨[], x, y :: ys, pre, b, rfl, h, rfl, ?_⟩
          rw [joinWith_cons_eq_flatMap]
          rfl
        · exact ⟨x :: l, arg, r, a, b, by rw [hargs]; rfl, h, by simp, rfl⟩
      · rintro ⟨l, arg, r, a, b, hargs, h, rfl, rfl⟩
        cases l with
        | nil =>
          obtain ⟨rfl, rfl⟩ := List.cons.inj hargs
          refine .inl ⟨b, ?_, h⟩
          rw [joinWith_cons_eq_flatMap]
          rfl
        | cons z l =>
          obtain ⟨rfl, hbehind⟩ := List.cons.inj hargs
          exact .inr ⟨_, by simp, _, rfl, l, arg, r, a, b, hbehind, h, rfl, rfl⟩

end

/-! ## Integers that can be named -/

/-- The groups that list a value for a call, one at least, have one name for it. -/
def Agrees (table : ConstantTable) (call : Text) (value : Int) (name : Text) : Prop :=
  (∃ g ∈ table, call ∈ g.calls ∧ (g.constant? value).isSome = true)
    ∧ ∀ g ∈ table, call ∈ g.calls → ∀ constant, g.constant? value = some constant → constant.name = name

/-- **A whole argument of a call**, between the text before it and the text behind it. -/
def ArgumentOf (names : List Text) (before : Option Char) (t pre : Text) (call : Call) (arg post : Text) : Prop :=
  ∃ start left right stop, CallIn names before t start call stop ∧ TopArgument 0 call.args left arg right
    ∧ pre = start ++ call.head ++ left ∧ post = right ++ ')' :: stop

/-- **An integer that can be named**: but for white space it is a whole argument of a call, and the groups agree on its
    name. -/
def Nameable (table : ConstantTable) (names : List Text) (before : Option Char) (t pre literal name post : Text) : Prop :=
  ∃ start call arg stop value, ArgumentOf names before t start call arg stop ∧ literal = trim arg
    ∧ readInt? literal = some value ∧ Agrees table call.name value name
    ∧ pre = start ++ arg.takeWhile isBlank ∧ post = (arg.reverse.takeWhile isBlank).reverse ++ stop

theorem agreed?_iff {cs : List Constant} {name : Text} :
    (∃ constant, agreed? cs = some constant ∧ constant.name = name) ↔ (∃ c, c ∈ cs) ∧ ∀ c ∈ cs, c.name = name := by
  cases cs with
  | nil => simp [agreed?]
  | cons c cs =>
    rw [agreed?, List.forall_mem_cons]
    constructor
    · rintro ⟨constant, h, rfl⟩
      split at h
      · rename_i hall
        cases h
        exact ⟨⟨c, List.mem_cons_self⟩, rfl, fun d hd => beq_iff_eq.1 (List.all_eq_true.1 hall d hd)⟩
      · cases h
    · rintro ⟨-, rfl, hrest⟩
      refine ⟨c, if_pos (List.all_eq_true.2 fun d hd => beq_iff_eq.2 (hrest d hd)), rfl⟩

/-- A constant is found with a name exactly if the groups agree on it. -/
theorem lookup_iff {table : ConstantTable} {call : Text} {value : Int} {name : Text} :
    (∃ constant, lookup table call value = some constant ∧ constant.name = name) ↔ Agrees table call value name := by
  have hmem (c : Constant) : c ∈ (table.filter fun g => g.calls.contains call).filterMap (·.constant? value) ↔
      ∃ g ∈ table, call ∈ g.calls ∧ g.constant? value = some c := by
    simp [List.mem_filterMap, List.mem_filter, and_assoc]
  rw [lookup, agreed?_iff, Agrees]
  simp only [hmem, Option.isSome_iff_exists]
  constructor
  · rintro ⟨⟨c, g, hg, hcall, hc⟩, hall⟩
    exact ⟨⟨g, hg, hcall, c, hc⟩, fun g hg hcall c hc => hall c ⟨g, hg, hcall, hc⟩⟩
  · rintro ⟨⟨g, hg, hcall, c, hc⟩, hall⟩
    refine ⟨⟨c, g, hg, hcall, hc⟩, ?_⟩
    rintro c ⟨g, hg, hcall, hc⟩
    exact hall g hg hcall c hc

theorem mem_insertName {name other : Text} {names : List Text} :
    other ∈ insertName name names ↔ other = name ∨ other ∈ names := by
  induction names with
  | nil => simp [insertName]
  | cons n names ih =>
    unfold insertName
    split
    · rename_i h
      subst h
      simp
    · split
      · simp
      · rw [List.mem_cons, List.mem_cons, ih, or_left_comm]

/-- The call names of a table are those that its groups list. -/
theorem mem_callNames {table : ConstantTable} {name : Text} : name ∈ callNames table ↔ ∃ g ∈ table, name ∈ g.calls := by
  have hfold (names : List Text) : name ∈ names.foldr insertName [] ↔ name ∈ names := by
    induction names with
    | nil => simp
    | cons n names ih => rw [List.foldr_cons, mem_insertName, ih, List.mem_cons]
  rw [callNames, hfold, List.mem_flatMap]

section
variable {table : ConstantTable} {names : List Text} {before b : Option Char} {pre literal name post : Text}

theorem CallIn.nameable {t start left arg right stop : Text} {call : Call} {value : Int}
    (h : CallIn names before t start call stop) (harg : TopArgument 0 call.args left arg right)
    (hvalue : readInt? (trim arg) = some value) (hagrees : Agrees table call.name value name) :
    Nameable table names before t (start ++ call.head ++ left ++ arg.takeWhile isBlank) (trim arg) name
      ((arg.reverse.takeWhile isBlank).reverse ++ (right ++ ')' :: stop)) :=
  ⟨_, call, arg, _, value, ⟨start, left, right, stop, h, harg, rfl, rfl⟩, rfl, hvalue, hagrees, rfl, rfl⟩

theorem Nameable.shift {t : Text} (h : Nameable table names b t pre literal name post) {a : Text}
    (ha : ∀ x, isApart (endOf b x) = true → isApart (endOf before (a ++ x)) = true) (s : Text) :
    Nameable table names before (a ++ t ++ s) (a ++ pre) literal name (post ++ s) := by
  obtain ⟨_, call, arg, _, value, ⟨start, left, right, stop, hin, harg, rfl, rfl⟩, hliteral, hvalue, hagrees, rfl, rfl⟩ := h
  refine ⟨_, call, arg, _, value, ⟨_, left, right, _, hin.shift ha s, harg, rfl, rfl⟩, hliteral, hvalue, hagrees, ?_, ?_⟩
  · simp
  · simp

theorem Nameable.cons {c : Char} {t : Text} (h : Nameable table names (some c) t pre literal name post) :
    Nameable table names before (c :: t) (c :: pre) literal name post := by
  have hin : Nameable table names before ([c] ++ t ++ []) ([c] ++ pre) literal name (post ++ []) :=
    h.shift (fun _ hx => hx) []
  rwa [List.append_nil, List.append_nil] at hin

theorem Nameable.of_argument {t stop left arg right : Text} {call : Call} (hcall : CallIn names before t [] call stop)
    (harg : TopArgument 0 call.args left arg right) (h : Nameable table names none arg pre literal name post) :
    Nameable table names before t (call.head ++ left ++ pre) literal name (post ++ right ++ ')' :: stop) := by
  have hin : Nameable table names before (call.head ++ left ++ arg ++ (right ++ ')' :: stop)) (call.head ++ left ++ pre)
      literal name (post ++ (right ++ ')' :: stop)) := h.shift (isApart_behind (isApart_argument harg)) _
  rwa [hcall.spells_argument harg, ← List.append_assoc post] at hin

theorem Nameable.of_behind {t stop : Text} {call : Call} (hcall : CallIn names before t [] call stop)
    (h : Nameable table names (some ')') stop pre literal name post) :
    Nameable table names before t (call.text ++ pre) literal name post := by
  have hin : Nameable table names before (call.text ++ stop ++ []) (call.text ++ pre) literal name (post ++ []) :=
    h.shift (fun x hx => by rwa [endOf_text]) []
  rw [hcall.spells]
  rwa [List.append_nil, List.append_nil] at hin

/-! ## One call -/

theorem hitAt_argPieces {call arg a z : Text} {inner : List (Piece Naming)} :
    HitAt (argPieces table call arg inner) a literal name z ↔
      (∃ value, readInt? (trim arg) = some value ∧ Agrees table call value name ∧ literal = trim arg
          ∧ a = arg.takeWhile isBlank ∧ z = (arg.reverse.takeWhile isBlank).reverse)
        ∨ (readInt? (trim arg) = none ∧ HitAt inner a literal name z) := by
  unfold argPieces
  cases readInt? (trim arg) with
  | none => simp
  | some value =>
    simp only [Option.some.injEq, exists_eq_left', ← lookup_iff]
    cases lookup table call value with
    | none => simp [not_hitAt_plains]
    | some constant =>
      simp only [hitAt_plains_append, hitAt_cons, not_hitAt_plains, source_plains, Piece.hit.injEq]
      constructor
      · rintro ⟨_, rfl, ⟨n, ⟨rfl, rfl⟩, rfl, rfl, rfl⟩ | ⟨_, _, h⟩⟩
        · exact .inl ⟨⟨constant, rfl, rfl⟩, rfl, by simp, rfl⟩
        · exact h.elim
      · rintro (⟨⟨_, hsome, rfl⟩, rfl, rfl, rfl⟩ | ⟨h, -⟩)
        · cases hsome
          exact ⟨[], by simp, .inl ⟨_, ⟨rfl, rfl⟩, rfl, rfl, rfl⟩⟩
        · cases h

theorem source_argPieces_namings (call arg : Text) :
    (argPieces table call arg (namings table names none 0 arg)).flatMap Piece.source = arg :=
  source_argPieces (by rw [source_namings, List.drop_zero])

section
variable (hnames : ∀ name ∈ names, isAsciiName name = true)
include hnames

/-- A place in a call is one of an argument of it, and any other lies behind the call. -/
theorem hitAt_namings_call {t stop : Text} {call : Call} (h : CallIn names before t [] call stop) :
    HitAt (namings table names before 0 t) pre literal name post ↔
      (∃ left arg right a z, TopArgument 0 call.args left arg right
          ∧ HitAt (argPieces table call.name arg (namings table names none 0 arg)) a literal name z
          ∧ pre = call.head ++ left ++ a ∧ post = z ++ right ++ ')' :: stop)
        ∨ ∃ pre', pre = call.text ++ pre' ∧ HitAt (namings table names (some ')') 0 stop) pre' literal name post := by
  have hsource : (joinArgs ((splitArgs 0 call.args).map fun arg =>
      argPieces table call.name arg (namings table names none 0 arg))).flatMap Piece.source = call.args := by
    rw [flatMap_joinArgs _ rfl, List.map_map]
    exact (congrArg _ ((List.map_congr_left fun arg _ => source_argPieces_namings call.name arg).trans
      (List.map_id _))).trans (joinWith_splitArgs 0 call.args)
  have hstop : (namings table names (some ')') 0 stop).flatMap Piece.source = stop := by rw [source_namings, List.drop_zero]
  rw [namings_call hnames h, List.append_assoc, hitAt_plains_append]
  simp only [hitAt_append, hitAt_plain_cons, hsource, List.flatMap_cons, hstop, topArgument_iff,
    hitAt_joinArgs fun arg _ => source_argPieces_namings call.name arg]
  constructor
  · rintro ⟨_, rfl, ⟨_, rfl, l, arg, r, a, z, hsplit, hhit, rfl, rfl⟩ | ⟨_, rfl, pre', rfl, hhit⟩⟩
    · exact .inl ⟨_, arg, _, a, z, ⟨l, r, hsplit, rfl, rfl⟩, hhit, by simp, rfl⟩
    · exact .inr ⟨pre', by simp [Call.text], hhit⟩
  · rintro (⟨_, arg, _, a, z, ⟨l, r, hsplit, rfl, rfl⟩, hhit, rfl, rfl⟩ | ⟨pre', rfl, hhit⟩)
    · exact ⟨_, by rw [List.append_assoc], .inl ⟨_, rfl, l, arg, r, a, z, hsplit, hhit, rfl, rfl⟩⟩
    · exact ⟨call.args ++ ')' :: pre', by simp [Call.text], .inr ⟨_, rfl, pre', rfl, hhit⟩⟩

/-! ## A stretch of code -/

/-- **Only integers that can be named are replaced.** -/
theorem nameable_of_hitAt {t : Text} (h : HitAt (namings table names before 0 t) pre literal name post) :
    Nameable table names before t pre literal name post := by
  induction before, t using call_induction names generalizing pre literal name post with
  | nil before =>
    rw [namings_nil] at h
    exact absurd h not_hitAt_nil
  | char before c t hcall ih =>
    rw [namings_char hnames hcall, hitAt_plain_cons] at h
    obtain ⟨pre', rfl, h⟩ := h
    exact (ih h).cons
  | call before t call stop hcall ihargs ih =>
    rw [hitAt_namings_call hnames hcall] at h
    rcases h with ⟨left, arg, right, a, z, harg, h, rfl, rfl⟩ | ⟨pre', rfl, h⟩
    · rcases hitAt_argPieces.1 h with ⟨value, hvalue, hagrees, rfl, rfl, rfl⟩ | ⟨-, h⟩
      · rw [List.append_assoc _ right]
        exact hcall.nameable harg hvalue hagrees
      · exact .of_argument hcall harg (ihargs arg harg.mem h)
    · exact .of_behind hcall (ih h)

/-- **Where no call is cut, all of them are.** -/
theorem hitAt_of_nameable {t : Text} (hwhole : WholeCalls names before t)
    (h : Nameable table names before t pre literal name post) :
    HitAt (namings table names before 0 t) pre literal name post := by
  induction before, t using call_induction names generalizing pre literal name post with
  | nil before =>
    obtain ⟨_, call, arg, _, value, ⟨start, left, right, stop, hin, -⟩, -⟩ := h
    have hspells := hin.spells
    simp [Call.text] at hspells
  | char before c t hcall ih =>
    obtain ⟨_, inner, arg, _, value, ⟨start, left, right, stop, hin, harg, rfl, rfl⟩, rfl, hvalue, hagrees, rfl, rfl⟩ := h
    rcases hin.of_cons with rfl | ⟨start', rfl, hbehind⟩
    · exact absurd hin (hcall inner stop)
    · rw [namings_char hnames hcall, hitAt_plain_cons]
      exact ⟨_, rfl, ih hwhole.tail (hbehind.nameable harg hvalue hagrees)⟩
  | call before t call stop hcall ihargs ih =>
    obtain ⟨_, inner, arg, _, value, ⟨start, left, right, stop', hin, harg, rfl, rfl⟩, rfl, hvalue, hagrees, rfl, rfl⟩ := h
    rw [hitAt_namings_call hnames hcall]
    rcases call_places hnames hcall hin with ⟨rfl, rfl, rfl⟩ | ⟨p, q, rfl, rfl, hinner⟩ | ⟨p, rfl, hbehind⟩
    · -- The integer is an argument of the call itself.
      exact .inl ⟨left, arg, right, _, _, harg, hitAt_argPieces.2 (.inl ⟨value, hvalue, hagrees, rfl, rfl, rfl⟩), by simp,
        by simp⟩
    · -- It is an argument of an inner call, which lies in one argument.
      obtain ⟨l, a, z, r, htop, rfl, rfl⟩ := exists_topArgument (d := 0) p inner.text q
        (by rw [Int.zero_add]; exact hwhole [] call stop hcall p inner q hinner)
      rw [← hinner.spells] at htop
      have hin' : CallIn names none (a ++ inner.text ++ z) a inner z :=
        ⟨rfl, hin.listed, hin.gap, hin.balanced, isApart_of_behind hinner.apart⟩
      have hnone : readInt? (trim (a ++ inner.text ++ z)) = none := by
        rw [Option.eq_none_iff_forall_ne_some]
        intro v hv
        exact absurd (plain_of_readInt?_trim hv '(' (by simp [Call.text, Call.head])).2 (by decide)
      have hhit := ihargs _ htop.mem (hwhole.argument hcall htop) (hin'.nameable harg hvalue hagrees)
      exact .inl ⟨l, _, r, _, _, htop, hitAt_argPieces.2 (.inr ⟨hnone, hhit⟩), by simp, by simp⟩
    · -- It stands behind the call.
      exact .inr ⟨_, by simp, ih (hwhole.behind hcall) (hbehind.nameable harg hvalue hagrees)⟩

end

end

/-! ## The result -/

/-- **Exactly the integers that can be named are replaced**, and everything else stays. -/
def NamesExactly (table : ConstantTable) (code result : Text) : Prop :=
  ∃ ps : List (Piece Naming), ps.flatMap Piece.source = code ∧ ps.flatMap writtenNaming = result
    ∧ ∀ pre literal name post, HitAt ps pre literal name post ↔
      Nameable table (callNames table) none code pre literal name post

/-- Only such integers are replaced. -/
def NamesOnly (table : ConstantTable) (code result : Text) : Prop :=
  ∃ ps : List (Piece Naming), ps.flatMap Piece.source = code ∧ ps.flatMap writtenNaming = result
    ∧ ∀ pre literal name post, HitAt ps pre literal name post →
      Nameable table (callNames table) none code pre literal name post

/-- Pieces in front of which the same text stands are replaced alike if the same literals are. -/
theorem heads_agree {p q : Piece Naming} {ps qs : List (Piece Naming)}
    (hsource : (p :: ps).flatMap Piece.source = (q :: qs).flatMap Piece.source)
    (hhits : ∀ pre literal name post, HitAt (p :: ps) pre literal name post ↔ HitAt (q :: qs) pre literal name post)
    (hne : ∀ pre literal name post, HitAt (p :: ps) pre literal name post → literal ≠ []) :
    p.source = q.source ∧ writtenNaming p = writtenNaming q ∧ p.source ≠ [] := by
  cases p with
  | plain c =>
    cases q with
    | plain d =>
      obtain ⟨rfl, -⟩ := List.cons.inj hsource
      exact ⟨rfl, rfl, List.cons_ne_nil c []⟩
    | hit literal n =>
      obtain ⟨pre, hpre, -⟩ := hitAt_plain_cons.1 ((hhits _ _ _ _).2 (hitAt_here literal n qs))
      cases hpre
  | hit literal n =>
    have hhit := (hhits _ _ _ _).1 (hitAt_here literal n ps)
    cases q with
    | plain d =>
      obtain ⟨pre, hpre, -⟩ := hitAt_plain_cons.1 hhit
      cases hpre
    | hit literal' n' =>
      rcases hitAt_cons.1 hhit with ⟨m, hm, -, hname, -⟩ | ⟨pre, hpre, -⟩
      · cases hm
        exact ⟨rfl, hname.symm, hne _ _ _ _ (hitAt_here literal n ps)⟩
      · have hnonempty := hne _ _ _ _ ((hhits _ _ _ _).2 (hitAt_here literal' n' qs))
        exact absurd (List.append_eq_nil_iff.1 hpre.symm).1 hnonempty

/-- The literals that are replaced, and their names, determine what is written. -/
theorem written_unique {ps qs : List (Piece Naming)} (hsource : ps.flatMap Piece.source = qs.flatMap Piece.source)
    (hhits : ∀ pre literal name post, HitAt ps pre literal name post ↔ HitAt qs pre literal name post)
    (hne : ∀ pre literal name post, HitAt ps pre literal name post → literal ≠ []) :
    ps.flatMap writtenNaming = qs.flatMap writtenNaming := by
  induction ps generalizing qs with
  | nil =>
    cases qs with
    | nil => rfl
    | cons q qs =>
      cases q with
      | plain d => cases hsource
      | hit literal n => exact absurd ((hhits _ _ _ _).2 (hitAt_here literal n qs)) not_hitAt_nil
  | cons p ps ih =>
    cases qs with
    | nil =>
      cases p with
      | plain c => cases hsource
      | hit literal n => exact absurd ((hhits _ _ _ _).1 (hitAt_here literal n ps)) not_hitAt_nil
    | cons q qs =>
      obtain ⟨hsame, hwritten, hp⟩ := heads_agree hsource hhits hne
      have hrest : ps.flatMap Piece.source = qs.flatMap Piece.source := by
        rw [List.flatMap_cons, List.flatMap_cons, hsame] at hsource
        exact List.append_cancel_left hsource
      have hbehind (pre literal name post : Text) : HitAt ps pre literal name post ↔ HitAt qs pre literal name post := by
        rw [← hitAt_behind hp, hhits, hsame, hitAt_behind (hsame ▸ hp)]
      rw [List.flatMap_cons, List.flatMap_cons, hwritten,
        ih hrest hbehind fun pre literal name post h => hne _ _ _ _ ((hitAt_behind hp).2 h)]

theorem NamesExactly.unique {table : ConstantTable} {code result result' : Text} (h : NamesExactly table code result)
    (h' : NamesExactly table code result') : result = result' := by
  obtain ⟨ps, hsource, rfl, hhits⟩ := h
  obtain ⟨qs, hsource', rfl, hhits'⟩ := h'
  refine written_unique (hsource.trans hsource'.symm) (fun pre literal name post => ?_) fun pre literal name post hhit => ?_
  · rw [hhits, hhits']
  · obtain ⟨_, _, arg, _, value, -, rfl, hvalue, -⟩ := (hhits _ _ _ _).1 hhit
    exact readInt?_ne_nil hvalue

theorem isAsciiName_of_mem_callNames {table : ConstantTable} (htable : hasAsciiNames table = true) :
    ∀ name ∈ callNames table, isAsciiName name = true := by
  intro name hname
  obtain ⟨g, hg, hcall⟩ := mem_callNames.1 hname
  exact isAsciiName_of_mem_calls htable hg hcall

/-- **Naming replaces integers that can be named, and nothing else.** Where no call is cut it replaces all of them, so that
    its result is the only one of this kind. In the result nothing is named again. -/
theorem namesExactly_nameCalls {table : ConstantTable} (htable : hasAsciiNames table = true) (code : Text) :
    NamesOnly table code (nameCalls table (callNames table) none 0 code).1
      ∧ (WholeCalls (callNames table) none code →
          ∀ result, NamesExactly table code result ↔ result = (nameCalls table (callNames table) none 0 code).1)
      ∧ nameCalls table (callNames table) none 0 (nameCalls table (callNames table) none 0 code).1 =
          ((nameCalls table (callNames table) none 0 code).1, []) := by
  have hnames := isAsciiName_of_mem_callNames htable
  have hsource : (namings table (callNames table) none 0 code).flatMap Piece.source = code := by
    rw [source_namings, List.drop_zero]
  refine ⟨⟨_, hsource, written_namings code, fun _ _ _ _ => nameable_of_hitAt hnames⟩, fun hwhole result => ?_, ?_⟩
  · have hexact : NamesExactly table code (nameCalls table (callNames table) none 0 code).1 :=
      ⟨_, hsource, written_namings code, fun _ _ _ _ => ⟨nameable_of_hitAt hnames, hitAt_of_nameable hnames hwhole⟩⟩
    constructor
    · exact fun h => h.unique hexact
    · rintro rfl
      exact hexact
  · have hnone := namings_renamed htable hnames none code
    rw [renamed, written_namings] at hnone
    refine Prod.ext ?_ ?_
    · rw [← written_namings, hnone, written_plains]
    · rw [← imports_namings, hnone, values_plains]
      rfl

/-- A table with two calls. -/
def callsTable : ConstantTable :=
  [⟨[text "f"], none, [(5, text "B")]⟩, ⟨[text "g"], none, [(1, text "A"), (5, text "B")]⟩]

/-- The integers of a call are named in the arguments of another call, and beside it. -/
theorem namesExactly_nameCalls_inner :
    hasAsciiNames callsTable = true ∧ WholeCalls (callNames callsTable) none (text "f(g(1, 5), 5);\n")
      ∧ (∀ result, NamesExactly callsTable (text "f(g(1, 5), 5);\n") result ↔ result = text "f(g(A, B), B);\n")
      ∧ nameCalls callsTable (callNames callsTable) none 0 (text "f(g(A, B), B);\n") = (text "f(g(A, B), B);\n", []) := by
  have htable : hasAsciiNames callsTable = true := by decide
  have hresult : (nameCalls callsTable (callNames callsTable) none 0 (text "f(g(1, 5), 5);\n")).1 =
      text "f(g(A, B), B);\n" := by decide +kernel
  have hround : ((text "f(g(1, 5), 5);\n").all fun c => nesting c == parenStep c) = true := by decide
  have hwhole : WholeCalls (callNames callsTable) none (text "f(g(1, 5), 5);\n") :=
    Nested.wholeCalls (isAsciiName_of_mem_callNames htable)
      (nested_of_parens fun c hc => beq_iff_eq.1 (List.all_eq_true.1 hround c hc))
  obtain ⟨-, hexact, hagain⟩ := namesExactly_nameCalls htable (text "f(g(1, 5), 5);\n")
  rw [hresult] at hexact hagain
  exact ⟨htable, hwhole, hexact hwhole, hagain⟩

/-- A bracket that was not opened cuts a call: its comma is taken for one of the call around it, and its integers stay. -/
theorem not_namesExactly_cut :
    hasAsciiNames callsTable = true
      ∧ nameCalls callsTable (callNames callsTable) none 0 (text "f(] g(1, 5));\n") = (text "f(] g(1, 5));\n", [])
      ∧ ¬ NamesExactly callsTable (text "f(] g(1, 5));\n") (text "f(] g(1, 5));\n") := by
  refine ⟨by decide, by decide +kernel, ?_⟩
  rintro ⟨ps, -, hwritten, hhits⟩
  have hargs : Balanced (text "1, 5") :=
    (closeParen?_zero_iff.1 (rfl : closeParen? 0 (text "1, 5)") = some (text "1, 5", []))).2
  have hcall : CallIn (callNames callsTable) none (text "f(] g(1, 5));\n") (text "f(] ") ⟨text "g", [], text "1, 5"⟩
      (text ");\n") := ⟨by decide, by decide, by simp, hargs, by decide⟩
  have harg : TopArgument 0 (text "1, 5") [] (text "1") (text ", 5") :=
    topArgument_iff.2 ⟨[], [text " 5"], by decide, by decide, by decide⟩
  have hagrees : Agrees callsTable (text "g") 1 (text "A") := lookup_iff.1 ⟨⟨text "A", none⟩, by decide, rfl⟩
  have hvalue : readInt? (trim (text "1")) = some 1 := by decide
  -- The name would be written, but it is not there.
  obtain ⟨qs, n, rs, rfl, -, hname, -⟩ := (hhits _ _ _ _).2 (hcall.nameable harg hvalue hagrees)
  have hmem : 'A' ∈ text "f(] g(1, 5));\n" := by
    rw [← hwritten]
    simp [writtenNaming, hname, text]
  exact absurd hmem (by decide)

end JavaMend.Java
