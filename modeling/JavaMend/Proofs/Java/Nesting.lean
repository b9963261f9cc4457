import JavaMend.Proofs.Java.MarkedConstants

/-!
# `Proofs.Java.Nesting` — brackets, and the arguments between them

A call ends with the parenthesis that closes it, and its arguments end with the commas outside brackets. Both notions
are those of counting: `parens` and `level` are the numbers of parentheses and of brackets that a text opens and does not
close. They depend on the brackets and commas of a text only.

## Contents
- **Counting.** `weigh`, `parens`, `level`.
- **Closing.** `Balanced`; `closeParen?_eq_some_iff`.
- **Arguments.** `TopArgument`, `Uncut`, `Splits`; `splitArgs_append`, `splitArgs_joinWith`, `topArgument_iff`,
  `exists_topArgument`.
- **Skeletons.** `skeleton`; `Balanced.congr`, `Splits.congr`.
-/

namespace JavaMend.Java

open JavaMend Text

/-! ## Counting -/

/-- What the characters of a text weigh together. -/
def weigh (w : Char → Int) : Text → Int
  | []     => 0
  | c :: t => w c + weigh w t

section
variable (w : Char → Int)

@[simp] theorem weigh_nil : weigh w [] = 0 := rfl

@[simp] theorem weigh_cons (c : Char) (t : Text) : weigh w (c :: t) = w c + weigh w t := rfl

@[simp] theorem weigh_append (s t : Text) : weigh w (s ++ t) = weigh w s + weigh w t := by
  induction s with
  | nil => exact (Int.zero_add _).symm
  | cons c s ih => rw [List.cons_append, weigh_cons, weigh_cons, ih, Int.add_assoc]

end

/-- How a character changes the nesting of parentheses. -/
def parenStep (c : Char) : Int := if c = '(' then 1 else if c = ')' then -1 else 0

/-- The parentheses that a text opens and does not close. -/
def parens (t : Text) : Int := weigh parenStep t

/-- The brackets of any kind that a text opens and does not close. -/
def level (t : Text) : Int := weigh nesting t

@[simp] theorem parens_nil : parens [] = 0 := rfl

@[simp] theorem parens_cons (c : Char) (t : Text) : parens (c :: t) = parenStep c + parens t := weigh_cons _ c t

@[simp] theorem parens_append (s t : Text) : parens (s ++ t) = parens s + parens t := weigh_append _ s t

@[simp] theorem level_nil : level [] = 0 := rfl

@[simp] theorem level_cons (c : Char) (t : Text) : level (c :: t) = nesting c + level t := weigh_cons _ c t

@[simp] theorem level_append (s t : Text) : level (s ++ t) = level s + level t := weigh_append _ s t

/-! ## Closing -/

/-- **The parentheses of a text are balanced**: each is closed, and none is closed that was not opened. -/
structure Balanced (t : Text) : Prop where
  closed : parens t = 0
  opened : ∀ p, p <+: t → 0 ≤ parens p

/-- A character that does not end the call changes the number of parentheses to be closed. -/
theorem closeParen?_cons {c : Char} {d e : Nat} (h : (e : Int) = d + parenStep c) (t : Text) :
    closeParen? d (c :: t) = (closeParen? e t).map fun found => (c :: found.1, found.2) := by
  by_cases hclose : c = ')'
  · subst hclose
    obtain rfl : d = e + 1 := by
      simp [parenStep] at h
      omega
    rfl
  · conv => lhs; unfold closeParen?
    split
    · rename_i heq
      cases heq
    · rename_i heq
      exact absurd (List.cons.inj heq).1 hclose
    · rename_i heq
      obtain ⟨rfl, rfl⟩ := List.cons.inj heq
      have he : (if c = '(' then d + 1 else d) = e := by
        by_cases hopen : c = '('
        · simp [parenStep, hopen] at h ⊢
          omega
        · simp [parenStep, hopen, hclose] at h ⊢
          omega
      simp only [he]

/-- Behind a character that does not end the call no less than nothing is open. -/
theorem exists_depth {c : Char} {d : Nat} (h : ¬(c = ')' ∧ d = 0)) : ∃ e : Nat, (e : Int) = d + parenStep c := by
  refine ⟨(d + parenStep c).toNat, Int.toNat_of_nonneg ?_⟩
  unfold parenStep
  split
  · omega
  · split
    · rename_i hclose
      have hopen : d ≠ 0 := fun hd => h ⟨hclose, hd⟩
      omega
    · omega

/-- **The rest of a call is split at the parenthesis that closes it**: the parentheses before it close what is open,
    and no more. -/
theorem closeParen?_eq_some_iff {d : Nat} {t args rest : Text} :
    closeParen? d t = some (args, rest) ↔
      t = args ++ ')' :: rest ∧ parens args = -d ∧ ∀ p, p <+: args → -d ≤ parens p := by
  induction t generalizing d args rest with
  | nil => simp [closeParen?]
  | cons c t ih =>
    by_cases hends : c = ')' ∧ d = 0
    · obtain ⟨rfl, rfl⟩ := hends
      have hsplit : closeParen? 0 (')' :: t) = some ([], t) := rfl
      rw [hsplit]
      constructor
      · intro h
        cases h
        refine ⟨rfl, rfl, fun p hp => ?_⟩
        rw [List.prefix_nil.1 hp]
        exact Int.le_refl 0
      · rintro ⟨hspell, -, hopened⟩
        cases args with
        | nil =>
          cases hspell
          rfl
        | cons b args =>
          obtain ⟨rfl, -⟩ := List.cons.inj hspell
          have hone := hopened [')'] (List.prefix_append [')'] args)
          simp [parenStep] at hone
    · obtain ⟨e, he⟩ := exists_depth hends
      rw [closeParen?_cons he, Option.map_eq_some_iff]
      constructor
      · rintro ⟨⟨as, r⟩, hsplit, heq⟩
        simp only [Prod.mk.injEq] at heq
        obtain ⟨rfl, rfl⟩ := heq
        obtain ⟨rfl, hclosed, hopened⟩ := ih.1 hsplit
        refine ⟨rfl, ?_, fun p hp => ?_⟩
        · rw [parens_cons]
          omega
        · rcases List.prefix_cons_iff.1 hp with rfl | ⟨q, rfl, hq⟩
          · simp
          · have := hopened q hq
            rw [parens_cons]
            omega
      · rintro ⟨hspell, hclosed, hopened⟩
        cases args with
        | nil =>
          obtain ⟨rfl, -⟩ := List.cons.inj hspell
          refine absurd ⟨rfl, ?_⟩ hends
          simpa using hclosed.symm
        | cons b args =>
          obtain ⟨rfl, hrest⟩ := List.cons.inj hspell
          rw [parens_cons] at hclosed
          refine ⟨(args, rest), ih.2 ⟨hrest, by omega, fun p hp => ?_⟩, rfl⟩
          have := hopened (c :: p) ((List.prefix_cons_inj c).2 hp)
          rw [parens_cons] at this
          omega

theorem closeParen?_zero_iff {t args rest : Text} :
    closeParen? 0 t = some (args, rest) ↔ t = args ++ ')' :: rest ∧ Balanced args := by
  rw [closeParen?_eq_some_iff]
  exact and_congr_right fun _ => ⟨fun h => ⟨h.1, h.2⟩, fun h => ⟨h.closed, h.opened⟩⟩

/-! ## Arguments -/

/-- No comma outside brackets stands in an argument that opens at a level. -/
def Uncut (d : Int) (arg : Text) : Prop := ∀ a b, arg = a ++ ',' :: b → d + level a ≠ 0

/-- **A whole argument**: it lies between commas outside brackets, or an end of the arguments, and holds no such comma.
    The arguments open at level `d`. -/
structure TopArgument (d : Int) (args left arg right : Text) : Prop where
  spells : args = left ++ arg ++ right
  opens : left = [] ∨ ∃ l, left = l ++ [','] ∧ d + level l = 0
  closes : right = [] ∨ ∃ r, right = ',' :: r ∧ d + level (left ++ arg) = 0
  inside : ∀ a b, arg = a ++ ',' :: b → d + level (left ++ a) ≠ 0

/-- Texts that are the arguments of what they spell. -/
def Splits : Int → List Text → Prop
  | _, []             => False
  | d, [arg]          => Uncut d arg
  | d, arg :: a :: as => Uncut d arg ∧ d + level arg = 0 ∧ Splits 0 (a :: as)

theorem uncut_nil (d : Int) : Uncut d [] := fun a b h => by simp at h

theorem uncut_cons_iff {d : Int} {c : Char} {arg : Text} :
    Uncut d (c :: arg) ↔ ¬ (c = ',' ∧ d = 0) ∧ Uncut (d + nesting c) arg := by
  constructor
  · intro h
    refine ⟨?_, fun a b harg => ?_⟩
    · rintro ⟨rfl, rfl⟩
      exact h [] arg rfl (by simp)
    · have := h (c :: a) b (by rw [harg]; rfl)
      rw [level_cons] at this
      rwa [Int.add_assoc]
  · rintro ⟨hc, h⟩ a b harg
    cases a with
    | nil =>
      obtain ⟨rfl, -⟩ := List.cons.inj harg
      exact fun hd => hc ⟨rfl, by simpa using hd⟩
    | cons e a =>
      obtain ⟨rfl, hrest⟩ := List.cons.inj harg
      have := h a b hrest
      rwa [level_cons, ← Int.add_assoc]

theorem splitArgs_comma (t : Text) : splitArgs 0 (',' :: t) = [] :: splitArgs 0 t := by
  rw [splitArgs, if_pos ⟨rfl, rfl⟩]

theorem splitArgs_cons_of_not {c : Char} {d : Int} (h : ¬ (c = ',' ∧ d = 0)) (t : Text) :
    ∃ arg args, splitArgs (d + nesting c) t = arg :: args ∧ splitArgs d (c :: t) = (c :: arg) :: args := by
  obtain ⟨arg, args, hargs⟩ := List.exists_cons_of_ne_nil (splitArgs_ne_nil (d + nesting c) t)
  exact ⟨arg, args, hargs, by rw [splitArgs, if_neg h, hargs]⟩

/-- **Arguments part at a comma outside brackets.** -/
theorem splitArgs_append {d : Int} {l : Text} (h : d + level l = 0) (t : Text) :
    splitArgs d (l ++ ',' :: t) = splitArgs d l ++ splitArgs 0 t := by
  induction l generalizing d with
  | nil =>
    obtain rfl : d = 0 := by simpa using h
    exact splitArgs_comma t
  | cons c l ih =>
    rw [level_cons] at h
    by_cases hc : c = ',' ∧ d = 0
    · obtain ⟨rfl, rfl⟩ := hc
      rw [List.cons_append, splitArgs_comma, splitArgs_comma, ih (by simpa [nesting] using h), List.cons_append]
    · obtain ⟨arg, args, hargs, hcons⟩ := splitArgs_cons_of_not hc l
      obtain ⟨arg', args', hargs', hcons'⟩ := splitArgs_cons_of_not hc (l ++ ',' :: t)
      rw [ih (by omega), hargs, List.cons_append] at hargs'
      obtain ⟨rfl, rfl⟩ := List.cons.inj hargs'
      rw [List.cons_append, hcons, hcons', List.cons_append]

/-- A text without a comma outside brackets stays whole, with what stands up to the next comma. -/
theorem splitArgs_uncut_append {d : Int} {x q b : Text} {r : List Text} (h : Uncut d x)
    (hq : splitArgs (d + level x) q = b :: r) : splitArgs d (x ++ q) = (x ++ b) :: r := by
  induction x generalizing d with
  | nil => simpa using hq
  | cons c x ih =>
    obtain ⟨hc, hx⟩ := uncut_cons_iff.1 h
    rw [level_cons, ← Int.add_assoc] at hq
    rw [List.cons_append, splitArgs, if_neg hc, ih hx hq]
    rfl

theorem splitArgs_of_uncut {d : Int} {arg : Text} (h : Uncut d arg) : splitArgs d arg = [arg] := by
  have hwhole := splitArgs_uncut_append h (rfl : splitArgs (d + level arg) [] = [] :: [])
  rwa [List.append_nil] at hwhole

/-- Arguments are found again where they were joined. -/
theorem splitArgs_joinWith {d : Int} {args : List Text} (h : Splits d args) : splitArgs d (joinWith [','] args) = args := by
  fun_induction Splits d args with
  | case1 => exact h.elim
  | case2 d arg => exact splitArgs_of_uncut h
  | case3 d arg a as ih =>
    obtain ⟨huncut, hlevel, hrest⟩ := h
    rw [joinWith, List.append_assoc, List.singleton_append, splitArgs_append hlevel, splitArgs_of_uncut huncut, ih hrest]
    rfl

theorem splits_splitArgs (d : Int) (t : Text) : Splits d (splitArgs d t) := by
  induction t generalizing d with
  | nil => exact uncut_nil d
  | cons c t ih =>
    by_cases hc : c = ',' ∧ d = 0
    · obtain ⟨rfl, rfl⟩ := hc
      rw [splitArgs_comma]
      obtain ⟨arg, args, hargs⟩ := List.exists_cons_of_ne_nil (splitArgs_ne_nil 0 t)
      have hrest := ih 0
      rw [hargs] at hrest ⊢
      exact ⟨uncut_nil 0, by simp, hrest⟩
    · obtain ⟨arg, args, hargs, hcons⟩ := splitArgs_cons_of_not hc t
      have hrest := ih (d + nesting c)
      rw [hargs] at hrest
      rw [hcons]
      cases args with
      | nil => exact uncut_cons_iff.2 ⟨hc, hrest⟩
      | cons a as =>
        obtain ⟨huncut, hlevel, hsplits⟩ := hrest
        refine ⟨uncut_cons_iff.2 ⟨hc, huncut⟩, ?_, hsplits⟩
        rw [level_cons]
        omega

theorem joinWith_eq_flatMap {l : List Text} (h : l ≠ []) :
    joinWith [','] l ++ [','] = l.flatMap (· ++ [',']) := by
  induction l with
  | nil => exact absurd rfl h
  | cons x l ih =>
    cases l with
    | nil => simp [joinWith]
    | cons y l =>
      rw [joinWith, List.append_assoc, ih (by simp)]
      simp

theorem joinWith_cons_cons_eq (x : Text) {l : List Text} (h : l ≠ []) :
    joinWith [','] (x :: l) = x ++ ',' :: joinWith [','] l := by
  obtain ⟨y, l, rfl⟩ := List.exists_cons_of_ne_nil h
  simp [joinWith]

theorem joinWith_append_cons (l : List Text) (x : Text) (r : List Text) :
    joinWith [','] (l ++ x :: r) = l.flatMap (· ++ [',']) ++ x ++ r.flatMap (',' :: ·) := by
  induction l with
  | nil => simpa using joinWith_cons_eq_flatMap ',' x r
  | cons y l ih =>
    rw [List.cons_append, joinWith_cons_cons_eq y (List.append_ne_nil_of_right_ne_nil l (by simp)), ih]
    simp

theorem Splits.topArgument {d : Int} {l : List Text} {arg : Text} {r : List Text} (h : Splits d (l ++ arg :: r)) :
    TopArgument d (joinWith [','] (l ++ arg :: r)) (l.flatMap (· ++ [','])) arg (r.flatMap (',' :: ·)) := by
  have hspells := joinWith_append_cons l arg r
  induction l generalizing d with
  | nil =>
    cases r with
    | nil => exact ⟨hspells, .inl rfl, .inl rfl, fun a b hab => h a b hab⟩
    | cons a as =>
      refine ⟨hspells, .inl rfl, .inr ⟨a ++ as.flatMap (',' :: ·), rfl, ?_⟩, fun a b hab => h.1 a b hab⟩
      simpa using h.2.1
  | cons x l ih =>
    obtain ⟨y, ys, hys⟩ := List.exists_cons_of_ne_nil (List.append_ne_nil_of_right_ne_nil l (List.cons_ne_nil arg r))
    rw [List.cons_append, hys] at h
    obtain ⟨-, hlevel, hrest⟩ := h
    rw [← hys] at hrest
    obtain ⟨-, hopens, hcloses, hinside⟩ := ih hrest (joinWith_append_cons l arg r)
    -- What stands before the argument opens as many brackets as it closes, up to the last comma and past it.
    have hleft (t : Text) : d + level ((x :: l).flatMap (· ++ [',']) ++ t) = 0 + level (l.flatMap (· ++ [',']) ++ t) := by
      simp only [List.flatMap_cons, level_append, level_cons, level_nil, nesting]
      simp
      omega
    refine ⟨hspells, .inr ?_, ?_, fun a b hab => ?_⟩
    · rcases hopens with hnil | ⟨k, hk, hzero⟩
      · exact ⟨x, by rw [List.flatMap_cons, hnil, List.append_nil], hlevel⟩
      · refine ⟨x ++ ',' :: k, by rw [List.flatMap_cons, hk]; simp, ?_⟩
        simp [nesting]
        omega
    · rcases hcloses with hnil | ⟨k, hk, hzero⟩
      · exact .inl hnil
      · exact .inr ⟨k, hk, (hleft arg).trans hzero⟩
    · rw [hleft a]
      exact hinside a b hab

/-- **The whole arguments are those that the arguments are split into.** -/
theorem topArgument_iff {d : Int} {args left arg right : Text} :
    TopArgument d args left arg right ↔
      ∃ l r, splitArgs d args = l ++ arg :: r ∧ left = l.flatMap (· ++ [',']) ∧ right = r.flatMap (',' :: ·) := by
  constructor
  · rintro ⟨rfl, hopens, hcloses, hinside⟩
    have huncut : Uncut (d + level left) arg := fun a b hab => by
      have := hinside a b hab
      rw [level_append] at this
      rwa [Int.add_assoc]
    have hrest : ∃ r, splitArgs (d + level left) (arg ++ right) = arg :: r ∧ right = r.flatMap (',' :: ·) := by
      rcases hcloses with rfl | ⟨k, rfl, hzero⟩
      · exact ⟨[], by rw [List.append_nil, splitArgs_of_uncut huncut], rfl⟩
      · rw [level_append, ← Int.add_assoc] at hzero
        obtain ⟨y, ys, hys⟩ := List.exists_cons_of_ne_nil (splitArgs_ne_nil 0 k)
        refine ⟨splitArgs 0 k, by rw [splitArgs_append hzero, splitArgs_of_uncut huncut]; rfl, ?_⟩
        conv => lhs; rw [← joinWith_splitArgs 0 k, hys, joinWith_cons_eq_flatMap]
        rw [hys, List.flatMap_cons, List.cons_append]
    obtain ⟨r, hr, hright⟩ := hrest
    rcases hopens with rfl | ⟨k, rfl, hzero⟩
    · exact ⟨[], r, by simpa using hr, rfl, hright⟩
    · have hlevel : d + level (k ++ [',']) = 0 := by simpa [nesting] using hzero
      rw [hlevel] at hr
      refine ⟨splitArgs d k, r, ?_, ?_, hright⟩
      · rw [List.append_assoc, List.append_assoc, List.singleton_append, splitArgs_append hzero, hr]
      · rw [← joinWith_eq_flatMap (splitArgs_ne_nil d k), joinWith_splitArgs]
  · rintro ⟨l, r, hsplit, rfl, rfl⟩
    have hsplits := splits_splitArgs d args
    rw [hsplit] at hsplits
    rw [← joinWith_splitArgs d args, hsplit]
    exact hsplits.topArgument

theorem TopArgument.mem {d : Int} {args left arg right : Text} (h : TopArgument d args left arg right) :
    arg ∈ splitArgs d args := by
  obtain ⟨l, r, hsplit, -⟩ := topArgument_iff.1 h
  exact hsplit ▸ List.mem_append_right l List.mem_cons_self

/-- **A text that is not cut lies in one argument.** -/
theorem exists_topArgument {d : Int} (p x q : Text) (h : Uncut (d + level p) x) :
    ∃ left a b right, TopArgument d (p ++ x ++ q) left (a ++ x ++ b) right ∧ p = left ++ a ∧ q = b ++ right := by
  suffices hsplit : ∃ l a b r, splitArgs d (p ++ x ++ q) = l ++ (a ++ x ++ b) :: r ∧ p = l.flatMap (· ++ [',']) ++ a
      ∧ q = b ++ r.flatMap (',' :: ·) by
    obtain ⟨l, a, b, r, hsplit, hp, hq⟩ := hsplit
    exact ⟨_, a, b, _, topArgument_iff.2 ⟨l, r, hsplit, rfl, rfl⟩, hp, hq⟩
  induction p generalizing d with
  | nil =>
    obtain ⟨b, r, hr⟩ := List.exists_cons_of_ne_nil (splitArgs_ne_nil (d + level x) q)
    refine ⟨[], [], b, r, ?_, rfl, ?_⟩
    · exact splitArgs_uncut_append (by simpa using h) hr
    · conv => lhs; rw [← joinWith_splitArgs (d + level x) q, hr, joinWith_cons_eq_flatMap]
  | cons c p ih =>
    rw [level_cons, ← Int.add_assoc] at h
    by_cases hc : c = ',' ∧ d = 0
    · obtain ⟨rfl, rfl⟩ := hc
      obtain ⟨l, a, b, r, hsplit, hp, hq⟩ := ih h
      refine ⟨[] :: l, a, b, r, ?_, by rw [hp]; rfl, hq⟩
      exact (splitArgs_comma _).trans (congrArg ([] :: ·) hsplit)
    · obtain ⟨l, a, b, r, hsplit, hp, hq⟩ := ih h
      obtain ⟨arg, args, hargs, hcons⟩ := splitArgs_cons_of_not hc (p ++ x ++ q)
      rw [hsplit] at hargs
      -- The character goes before the first argument, which is the one looked for or stands before it.
      cases l with
      | nil =>
        obtain ⟨rfl, rfl⟩ := List.cons.inj hargs
        exact ⟨[], c :: a, b, _, hcons, by rw [hp]; rfl, hq⟩
      | cons y l =>
        obtain ⟨rfl, rfl⟩ := List.cons.inj hargs
        exact ⟨(c :: y) :: l, a, b, r, hcons, by rw [hp]; rfl, hq⟩

/-! ## Skeletons -/

/-- A character that parts arguments or ends a call. -/
def isJoint (c : Char) : Bool := nesting c != 0 || c == ','

/-- The brackets and commas of a text. -/
def skeleton (t : Text) : Text := t.filter isJoint

@[simp] theorem skeleton_append (s t : Text) : skeleton (s ++ t) = skeleton s ++ skeleton t := List.filter_append ..

theorem skeleton_cons {c : Char} (hc : isJoint c = true) (t : Text) : skeleton (c :: t) = c :: skeleton t :=
  List.filter_cons_of_pos hc

theorem skeleton_eq_nil {t : Text} (h : ∀ c ∈ t, isJoint c = false) : skeleton t = [] := by
  rw [skeleton, List.filter_eq_nil_iff]
  exact fun c hc => by simp [h c hc]

theorem weigh_skeleton {w : Char → Int} (hw : ∀ c, isJoint c = false → w c = 0) (t : Text) :
    weigh w (skeleton t) = weigh w t := by
  induction t with
  | nil => rfl
  | cons c t ih =>
    cases hc : isJoint c with
    | true => rw [skeleton_cons hc, weigh_cons, weigh_cons, ih]
    | false =>
      rw [weigh_cons, hw c hc, Int.zero_add, ← ih, skeleton, skeleton, List.filter_cons_of_neg (by simp [hc])]

theorem level_congr {s t : Text} (h : skeleton s = skeleton t) : level s = level t := by
  have hw (c : Char) (hc : isJoint c = false) : nesting c = 0 := by simpa [isJoint] using (Bool.or_eq_false_iff.1 hc).1
  rw [level, level, ← weigh_skeleton hw s, h, weigh_skeleton hw t]

theorem parens_congr {s t : Text} (h : skeleton s = skeleton t) : parens s = parens t := by
  have hw (c : Char) (hc : isJoint c = false) : parenStep c = 0 := by
    have hne : c ≠ '(' ∧ c ≠ ')' := by
      constructor
      · rintro rfl
        exact absurd hc (by decide)
      · rintro rfl
        exact absurd hc (by decide)
    simp [parenStep, hne]
  rw [parens, parens, ← weigh_skeleton hw s, h, weigh_skeleton hw t]

theorem parens_eq_zero {t : Text} (h : ∀ c ∈ t, isJoint c = false) : parens t = 0 :=
  @parens_congr t [] (skeleton_eq_nil h)

theorem level_eq_zero {t : Text} (h : ∀ c ∈ t, isJoint c = false) : level t = 0 :=
  @level_congr t [] (skeleton_eq_nil h)

/-- A part of a text with the same skeleton. -/
theorem exists_of_skeleton {s t a b : Text} (h : skeleton s = skeleton t) (ht : t = a ++ b) :
    ∃ a' b', s = a' ++ b' ∧ skeleton a' = skeleton a ∧ skeleton b' = skeleton b := by
  rw [ht, skeleton_append] at h
  exact List.filter_eq_append_iff.1 h

/-- The same for a joint and what follows it. -/
theorem exists_cons_of_skeleton {s t a b : Text} {c : Char} (hc : isJoint c = true) (h : skeleton s = skeleton t)
    (ht : t = a ++ c :: b) : ∃ a' b', s = a' ++ c :: b' ∧ skeleton a' = skeleton a ∧ skeleton b' = skeleton b := by
  obtain ⟨a', b', rfl, ha, hb⟩ := exists_of_skeleton h ht
  rw [skeleton_cons hc] at hb
  obtain ⟨x, y, rfl, hx, -, hy⟩ := List.filter_eq_cons_iff.1 hb
  have hnil : skeleton x = [] := skeleton_eq_nil fun d hd => by simpa using hx d hd
  exact ⟨a' ++ x, y, by simp, by rw [skeleton_append, hnil, List.append_nil, ha], hy⟩

theorem Balanced.congr {s t : Text} (ht : Balanced t) (h : skeleton s = skeleton t) : Balanced s := by
  refine ⟨(parens_congr h).trans ht.closed, ?_⟩
  rintro p ⟨r, rfl⟩
  obtain ⟨p', r', rfl, hp, -⟩ := exists_of_skeleton h.symm rfl
  rw [← parens_congr hp]
  exact ht.opened p' (List.prefix_append p' r')

theorem Uncut.congr {d : Int} {s t : Text} (ht : Uncut d t) (h : skeleton s = skeleton t) : Uncut d s := by
  intro a b hs
  obtain ⟨a', b', hspells, ha, -⟩ := exists_cons_of_skeleton (by decide) h.symm hs
  rw [← level_congr ha]
  exact ht a' b' hspells

theorem Splits.congr {d : Int} {ss ts : List Text} (ht : Splits d ts)
    (h : List.Forall₂ (fun s t => skeleton s = skeleton t) ss ts) : Splits d ss := by
  induction h generalizing d with
  | nil => exact ht
  | @cons s t ss ts hst hrest ih =>
    cases hrest with
    | nil => exact Uncut.congr ht hst
    | cons hst' hrest =>
      obtain ⟨huncut, hlevel, hsplits⟩ := ht
      exact ⟨huncut.congr hst, by rw [level_congr hst, hlevel], ih hsplits⟩

end JavaMend.Java
