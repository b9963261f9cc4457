import JavaMend.Proofs.Java.CallScan

/-!
# `Proofs.Java.CallPlaces` — calls inside calls

Two calls of a text lie side by side, or one lies in the arguments of the other. Whether it lies in one of them is
another matter: the commas that part arguments stand outside brackets of any kind, while the parentheses alone tell where
a call ends. A bracket that closes without having opened can bring such a comma into an inner call. Where no bracket does
so, calls lie in arguments.

## Contents
- **Places.** `CallIn.shift`, `CallIn.behind_head`, `call_places`.
- **Whole calls.** `WholeCalls`, `Nested`; `Nested.wholeCalls`, `nested_of_parens`.
-/

namespace JavaMend.Java

open JavaMend Text

variable {names : List Text} {before b : Option Char}

/-! ## Places -/

/-- What goes before a text takes the place of the start of a text if no name goes on from it. -/
theorem isApart_behind {a : Text} (ha : isApart (endOf before a) = true) (x : Text) (hx : isApart (endOf none x) = true) :
    isApart (endOf before (a ++ x)) = true := by
  cases x with
  | nil => rwa [List.append_nil]
  | cons c x => rwa [endOf_append]

theorem isApart_of_behind {a x : Text} (h : isApart (endOf before (a ++ x)) = true) : isApart (endOf none x) = true := by
  cases x with
  | nil => rfl
  | cons c x => rwa [endOf_append] at h

/-- **A call of a part of a text is a call of the text.** -/
theorem CallIn.shift {t pre post : Text} {call : Call} (h : CallIn names b t pre call post) {a : Text}
    (ha : ∀ x, isApart (endOf b x) = true → isApart (endOf before (a ++ x)) = true) (s : Text) :
    CallIn names before (a ++ t ++ s) (a ++ pre) call (post ++ s) :=
  ⟨by rw [h.spells]; simp, h.listed, h.gap, h.balanced, ha pre h.apart⟩

theorem endOf_head (before : Option Char) (pre : Text) (call : Call) : endOf before (pre ++ call.head) = some '(' := by
  rw [Call.head, ← List.append_assoc]
  exact endOf_concat before _ '('

theorem endOf_text (before : Option Char) (call : Call) (x : Text) :
    endOf before (call.text ++ x) = endOf (some ')') x := by
  rw [endOf_append, Call.text, endOf_concat]

/-- A call of a text opens it or is a call behind its first character. -/
theorem CallIn.of_cons {c : Char} {t pre post : Text} {call : Call} (h : CallIn names before (c :: t) pre call post) :
    pre = [] ∨ ∃ pre', pre = c :: pre' ∧ CallIn names (some c) t pre' call post := by
  cases pre with
  | nil => exact .inl rfl
  | cons d pre =>
    obtain ⟨rfl, hspells⟩ := List.cons.inj h.spells
    exact .inr ⟨pre, rfl, hspells, h.listed, h.gap, h.balanced, h.apart⟩

theorem CallIn.spells_argument {t stop left arg right : Text} {call : Call} (h : CallIn names before t [] call stop)
    (harg : TopArgument 0 call.args left arg right) : call.head ++ left ++ arg ++ (right ++ ')' :: stop) = t := by
  rw [h.spells, Call.text, harg.spells]
  simp

/-- An argument of a call opens behind its parenthesis or a comma. -/
theorem isApart_argument {left arg right : Text} {call : Call} (harg : TopArgument 0 call.args left arg right) :
    isApart (endOf before (call.head ++ left)) = true := by
  rcases harg.opens with rfl | ⟨l, rfl, -⟩
  · rw [endOf_append, ← List.nil_append call.head, endOf_head]
    rfl
  · rw [← List.append_assoc, endOf_concat]
    decide

section
variable (hnames : ∀ name ∈ names, isAsciiName name = true)
include hnames

theorem CallIn.opens {t pre post : Text} {call : Call} (h : CallIn names before t pre call post) :
    ∃ c w, call.text = c :: w ∧ opensAscii c = true := by
  obtain ⟨⟨c, rest, hname, hc⟩, -⟩ := isAsciiName_spec (hnames _ h.listed)
  exact ⟨c, rest ++ call.gap ++ ['('] ++ call.args ++ [')'], by simp [Call.text, Call.head, hname], hc⟩

/-- The parenthesis is the only joint of a head. -/
theorem CallIn.plain_head {t pre post : Text} {call : Call} (h : CallIn names before t pre call post) :
    ∀ c ∈ call.name ++ call.gap, isJoint c = false := by
  intro c hc
  rcases List.mem_append.1 hc with hc | hc
  · exact not_isJoint_of_inAsciiName ((isAsciiName_spec (hnames _ h.listed)).2 c hc)
  · exact not_isJoint_of_isBlank (h.gap c hc)

/-- Up to any place in it, a call closes no parenthesis that it does not open. -/
theorem CallIn.parens_prefix {t pre post : Text} {call : Call} (h : CallIn names before t pre call post) {p s : Text}
    (hp : call.text = p ++ s) : 0 ≤ parens p := by
  have hplain := h.plain_head hnames
  have hhead : parens call.head = 1 := by
    rw [Call.head, parens_append, parens_eq_zero hplain]
    decide
  rw [Call.text, List.append_assoc] at hp
  rcases List.append_eq_append_iff.1 hp with ⟨x, rfl, hx⟩ | ⟨x, hx, -⟩
  · -- The place lies behind the head.
    rw [parens_append, hhead]
    rcases List.append_eq_append_iff.1 hx with ⟨y, rfl, hy⟩ | ⟨y, hy, -⟩
    · rw [parens_append, h.balanced.closed]
      rcases List.singleton_eq_append_iff.1 hy with ⟨rfl, -⟩ | ⟨rfl, -⟩
      · decide
      · decide
    · have := h.balanced.opened x ⟨y, hy.symm⟩
      omega
  · rw [Call.head] at hx
    rcases List.append_eq_append_iff.1 hx with ⟨y, rfl, hy⟩ | ⟨y, hy, -⟩
    · rw [parens_append, parens_eq_zero hplain]
      rcases List.singleton_eq_append_iff.1 hy with ⟨rfl, -⟩ | ⟨rfl, -⟩
      · decide
      · decide
    · exact Int.le_of_eq (parens_eq_zero fun c hc => hplain c (hy ▸ List.mem_append_left y hc)).symm

/-- Another call opens behind the head of a call. -/
theorem CallIn.behind_head {t pre post post' : Text} {call inner : Call} (h : CallIn names before t [] call post)
    (h' : CallIn names before t pre inner post') : pre = [] ∨ ∃ p, pre = call.head ++ p := by
  have hspells : pre ++ (inner.text ++ post') = call.head ++ (call.args ++ ')' :: post) := by
    rw [← List.append_assoc, ← h'.spells, h.spells]
    simp [Call.text]
  rcases List.append_eq_append_iff.1 hspells with ⟨y, hy, hrest⟩ | ⟨x, hx, -⟩
  · cases y with
    | nil => exact .inr ⟨[], by rw [hy]; simp⟩
    | cons e y =>
      obtain ⟨c, w, htext, hopens⟩ := h'.opens hnames
      rw [htext] at hrest
      obtain ⟨rfl, -⟩ := List.cons.inj hrest
      rw [Call.head, List.append_assoc] at hy
      rcases List.append_eq_append_iff.1 hy with ⟨z, -, hgap⟩ | ⟨z, hname, -⟩
      · -- No name opens behind a name.
        have hmem : c ∈ call.gap ++ ['('] := by simp [hgap]
        rcases List.mem_append.1 hmem with hc | hc
        · rw [opensAscii_of_isBlank (h.gap c hc)] at hopens
          cases hopens
        · rw [List.mem_singleton.1 hc] at hopens
          exact absurd hopens (by decide)
      · -- Nor does it open inside one.
        rcases List.eq_nil_or_concat pre with rfl | ⟨pre, d, rfl⟩
        · exact .inl rfl
        · have happart := h'.apart
          rw [List.concat_eq_append, endOf_concat] at happart
          have hjoins := joinsName_of_inAsciiName ((isAsciiName_spec (hnames _ h.listed)).2 d (hname ▸ by simp))
          have hnone := (isApart_iff.1 happart).2
          rw [Option.any_some, hjoins] at hnone
          cases hnone
  · exact .inr ⟨x, hx⟩

/-- **Calls do not overlap**: another call of the text lies in the arguments of the call that opens it, or behind it. -/
theorem call_places {t pre post post' : Text} {call inner : Call} (h : CallIn names before t [] call post)
    (h' : CallIn names before t pre inner post') :
    (pre = [] ∧ inner = call ∧ post' = post)
      ∨ (∃ p q, pre = call.head ++ p ∧ post' = q ++ ')' :: post ∧ CallIn names none call.args p inner q)
      ∨ ∃ p, pre = call.text ++ p ∧ CallIn names (some ')') post p inner post' := by
  rcases h.behind_head hnames h' with rfl | ⟨p, rfl⟩
  · obtain ⟨hcall, hpost⟩ := h'.unique hnames h
    exact .inl ⟨rfl, hcall, hpost⟩
  · have hspells : call.args ++ ')' :: post = p ++ (inner.text ++ post') := by
      have hboth := h.spells.symm.trans h'.spells
      rw [Call.text] at hboth
      simpa using hboth
    rcases List.append_eq_append_iff.1 hspells with ⟨y, hp, hrest⟩ | ⟨y, hargs, hrest⟩
    · cases y with
      | nil =>
        obtain ⟨c, w, htext, hopens⟩ := h'.opens hnames
        rw [htext] at hrest
        obtain ⟨rfl, -⟩ := List.cons.inj hrest
        exact absurd hopens (by decide)
      | cons e y =>
        obtain ⟨rfl, hpost⟩ := List.cons.inj hrest
        have hpre : call.head ++ p = call.text ++ y := by simp [hp, Call.text]
        have happart := h'.apart
        rw [hpre, endOf_text] at happart
        exact .inr (.inr ⟨y, hpre, by rw [hpost]; simp, h'.listed, h'.gap, h'.balanced, happart⟩)
    · have hinside {z : Text} (hy : y = inner.text ++ z) : CallIn names none call.args p inner z :=
        ⟨by rw [hargs, hy]; simp, h'.listed, h'.gap, h'.balanced, isApart_of_behind h'.apart⟩
      rcases List.append_eq_append_iff.1 hrest with ⟨z, hy, hpost⟩ | ⟨z, hy, hpost⟩
      · exact .inr (.inl ⟨p, z, rfl, hpost, hinside hy⟩)
      · cases z with
        | nil => exact .inr (.inl ⟨p, [], rfl, hpost.symm, hinside (by simpa using hy.symm)⟩)
        | cons e z =>
          -- The inner call would close a parenthesis of the arguments around it.
          obtain ⟨rfl, -⟩ := List.cons.inj hpost
          have hopened := h.balanced.opened p ⟨y, hargs.symm⟩
          have hclosed := h.balanced.closed
          have hinner := @CallIn.parens_prefix _ _ hnames _ _ _ _ h' (y ++ [')']) z (by rw [hy]; simp)
          rw [hargs, parens_append] at hclosed
          simp [parenStep] at hinner
          omega

end

/-! ## Whole calls -/

/-- **No call is cut**: no comma that parts the arguments of a call stands in a call among them. -/
def WholeCalls (names : List Text) (before : Option Char) (t : Text) : Prop :=
  ∀ pre outer post, CallIn names before t pre outer post →
    ∀ p inner q, CallIn names none outer.args p inner q → Uncut (level p) inner.text

/-- The arguments of a call close no bracket that they do not open. -/
def Nested (names : List Text) (before : Option Char) (t : Text) : Prop :=
  ∀ pre call post, CallIn names before t pre call post → ∀ p, p <+: call.args → 0 ≤ level p

theorem WholeCalls.shift {t a s : Text} (h : WholeCalls names before (a ++ t ++ s))
    (ha : ∀ x, isApart (endOf b x) = true → isApart (endOf before (a ++ x)) = true) : WholeCalls names b t :=
  fun _ _ _ houter => h _ _ _ (houter.shift ha s)

theorem WholeCalls.tail {c : Char} {t : Text} (h : WholeCalls names before (c :: t)) : WholeCalls names (some c) t :=
  @WholeCalls.shift _ before _ t [c] [] (by rwa [List.append_nil]) fun _ hx => hx

theorem WholeCalls.argument {t stop left arg right : Text} {call : Call} (h : WholeCalls names before t)
    (hcall : CallIn names before t [] call stop) (harg : TopArgument 0 call.args left arg right) :
    WholeCalls names none arg :=
  @WholeCalls.shift _ before _ _ _ (right ++ ')' :: stop) (by rwa [hcall.spells_argument harg])
    (isApart_behind (isApart_argument harg))

theorem WholeCalls.behind {t stop : Text} {call : Call} (h : WholeCalls names before t)
    (hcall : CallIn names before t [] call stop) : WholeCalls names (some ')') stop := by
  rw [hcall.spells, List.nil_append] at h
  exact @WholeCalls.shift _ before _ _ call.text [] (by rwa [List.append_nil]) fun x hx => by rwa [endOf_text]

/-- **Where brackets nest, no call is cut.** -/
theorem Nested.wholeCalls (hnames : ∀ name ∈ names, isAsciiName name = true) {t : Text} (h : Nested names before t) :
    WholeCalls names before t := by
  intro pre outer post houter p inner q hinner a b hab
  have hlevel : 0 ≤ level p := h pre outer post houter p ⟨inner.text ++ q, by rw [hinner.spells]; simp⟩
  have hin : CallIn names before t (pre ++ outer.head ++ p) inner (q ++ ')' :: post) := by
    have happart : isApart (endOf before (pre ++ outer.head)) = true := by
      rw [endOf_head]
      rfl
    have hshift := hinner.shift (isApart_behind happart) (')' :: post)
    rwa [show pre ++ outer.head ++ outer.args ++ ')' :: post = t by rw [houter.spells]; simp [Call.text]] at hshift
  have hplain := hinner.plain_head hnames
  have hhead : level inner.head = 1 := by
    rw [Call.head, level_append, level_eq_zero hplain]
    decide
  -- The comma stands behind the parenthesis that opens the inner call.
  obtain ⟨x, rfl, hx⟩ : ∃ x, a = inner.head ++ x ∧ 0 ≤ level x := by
    rw [Call.text, List.append_assoc] at hab
    rcases List.append_eq_append_iff.1 hab with ⟨x, ha, hrest⟩ | ⟨y, hy, hrest⟩
    · refine ⟨x, ha, ?_⟩
      rcases List.append_eq_append_iff.1 hrest with ⟨z, -, hz⟩ | ⟨z, hargs, -⟩
      · rcases List.singleton_eq_append_iff.1 hz with ⟨-, hcomma⟩ | ⟨-, hcomma⟩
        · exact absurd (List.cons.inj hcomma).1 (by decide)
        · cases hcomma
      · exact h _ _ _ hin x ⟨z, hargs.symm⟩
    · cases y with
      | nil => exact ⟨[], by rw [hy]; simp, Int.le_refl 0⟩
      | cons e y =>
        obtain ⟨rfl, -⟩ := List.cons.inj hrest
        have hcomma : ',' ∈ inner.head := by simp [hy]
        rcases List.mem_append.1 hcomma with hcomma | hcomma
        · exact absurd (hplain _ hcomma) (by decide)
        · exact absurd (List.mem_singleton.1 hcomma) (by decide)
  rw [level_append, hhead]
  omega

theorem level_eq_parens {t : Text} (h : ∀ c ∈ t, nesting c = parenStep c) : level t = parens t := by
  induction t with
  | nil => rfl
  | cons c t ih =>
    obtain ⟨hc, ht⟩ := List.forall_mem_cons.1 h
    rw [level_cons, parens_cons, hc, ih ht]

/-- Brackets nest if all of them are parentheses. -/
theorem nested_of_parens {t : Text} (h : ∀ c ∈ t, nesting c = parenStep c) : Nested names before t := by
  rintro pre call post hcall p ⟨s, hs⟩
  have hmem : ∀ c ∈ p, c ∈ t := fun c hc => by
    rw [hcall.spells, Call.text, ← hs]
    simp [hc]
  rw [level_eq_parens fun c hc => h c (hmem c hc)]
  exact hcall.balanced.opened p ⟨s, hs⟩

end JavaMend.Java
