import JavaMend.Proofs.Java.FixedLines
import JavaMend.Proofs.Java.Parts
import JavaMend.Proofs.Java.Recast

/-!
# `Proofs.Java.TidiedLines` — what shows of lines that lose white space

Of some lines of a text blank ones go and the others lose the white space at their end. Read line by line, the new text
has the parts of the old one, but that a segment in which a line ended has lost white space: code does not tell, a
literal or a comment does. So what shows of the segments of some kinds stays exactly if no line was cut in one of them.

## Contents
- **Lines.** `tidied`, `tidied_cases`; `DropsCode`, `TrimsIn`.
- **Line ends.** `Mode.endsLine`; `partsFrom_blanks`, `finish_cut`, `partsFrom_endsLine`.
- **Views.** `symbols`, `notes`, `Parting`, `Alike`; `Alike.pushAll`.
- **Tidied texts.** `behind`; `Alike.line`, `Alike.drop`, `Alike.cut`; `alike_tidied`.
- **Joined lines.** `symbols_joinWith`, `texts_joinWith`; `alike_joinWith`.
-/

namespace JavaMend.Java

open JavaMend Text

/-! ## Lines -/

/-- Lines as they stay: of those that are marked, blank ones go and the others lose the white space at their end. -/
def tidied : List (Text × Bool) → List Text
  | []                => []
  | (l, marked) :: ls =>
    if marked then if isBlankLine l then tidied ls else trimEnd l :: tidied ls else l :: tidied ls

/-- A line stays, goes or is cut. -/
theorem tidied_cases (l : Text) (marked : Bool) (ls : List (Text × Bool)) :
    (tidied ((l, marked) :: ls) = l :: tidied ls ∧ (marked = true → trimEnd l = l))
      ∨ (tidied ((l, marked) :: ls) = tidied ls ∧ marked = true ∧ isBlankLine l = true)
      ∨ ∃ k b, tidied ((l, marked) :: ls) = k :: tidied ls ∧ marked = true ∧ trimEnd l ≠ l ∧ l = k ++ b ∧ b ≠ []
        ∧ ∀ c ∈ b, isBlank c = true := by
  by_cases hsame : marked = false ∨ isBlankLine l = false ∧ trimEnd l = l
  · left
    rcases hsame with rfl | ⟨hblank, hsame⟩
    · exact ⟨rfl, nofun⟩
    · cases marked <;> simp [tidied, hblank, hsame]
  · obtain ⟨hmarked, hchanges⟩ := not_or.1 hsame
    obtain rfl : marked = true := by simpa using hmarked
    right
    cases hblank : isBlankLine l with
    | true => exact .inl ⟨by simp [tidied, hblank], rfl, rfl⟩
    | false =>
      have hcut : trimEnd l ≠ l := fun heq => hchanges ⟨hblank, heq⟩
      obtain ⟨b, hb, hblanks⟩ := exists_trimEnd l
      refine .inr ⟨trimEnd l, b, by simp [tidied, hblank], rfl, hcut, hb, ?_, hblanks⟩
      rintro rfl
      rw [List.append_nil] at hb
      exact hcut hb.symm

/-- The lines that go stand in code. -/
def DropsCode : Mode → List (Text × Bool) → Prop
  | _, []                => True
  | m, (l, marked) :: ls => (marked = true → isBlankLine l = true → m.behind = .code) ∧ DropsCode (exit m l) ls

/-- Lines lose white space only in segments of some kinds. -/
def TrimsIn (p : SegmentKind → Prop) : Mode → List (Text × Bool) → Prop
  | _, []                => True
  | m, (l, marked) :: ls => (marked = true → trimEnd l = l ∨ p (finish m l none).kind) ∧ TrimsIn p (exit m l) ls

theorem TrimsIn.and {p q : SegmentKind → Prop} {m : Mode} {ls : List (Text × Bool)} (hp : TrimsIn p m ls)
    (hq : TrimsIn q m ls) : TrimsIn (fun k => p k ∧ q k) m ls := by
  induction ls generalizing m with
  | nil => trivial
  | cons line ls ih =>
    refine ⟨fun hmarked => ?_, ih hp.2 hq.2⟩
    rcases hp.1 hmarked with hsame | hp
    · exact .inl hsame
    · exact (hq.1 hmarked).imp_right fun hq => ⟨hp, hq⟩

theorem TrimsIn.mono {p q : SegmentKind → Prop} (hpq : ∀ k, p k → q k) {m : Mode} {ls : List (Text × Bool)}
    (h : TrimsIn p m ls) : TrimsIn q m ls := by
  induction ls generalizing m with
  | nil => trivial
  | cons line ls ih => exact ⟨fun hmarked => (h.1 hmarked).imp_right (hpq _), ih h.2⟩

/-! ## Line ends -/

/-- A line can end in the mode. -/
def Mode.endsLine : Mode → Bool
  | .blockOpens | .blockCloses => false
  | _                          => true

theorem eq_code_of_behind {m : Mode} (hm : m.opensLine = true) (h : m.behind = .code) : m = .code := by
  cases m <;> simp_all [Mode.opensLine, Mode.behind]

/-- A blank line that goes stands in code, and leaves the text in code. -/
theorem exit_of_goes {m : Mode} {l : Text} (hblank : isBlankLine l = true) (h : (exit m []).behind = .code) :
    exit m [] = .code ∧ exit (exit m []) l = .code := by
  have hopens := opensLine_exit m []
  have hcode := eq_code_of_behind hopens h
  refine ⟨hcode, ?_⟩
  rw [exit_of_blank hopens hblank, hcode]
  rfl

theorem endsLine_of_opensLine {m : Mode} (h : m.opensLine = true) : m.endsLine = true := by
  cases m <;> first | rfl | cases h

theorem endsLine_finish_cons (m : Mode) (c : Char) (l : Text) : (finish m (c :: l) none).endsLine = true := by
  induction l generalizing m c with
  | nil =>
    rw [finish_cons]
    cases m <;> simp only [step] <;> (repeat' split) <;> first | rfl | simp_all
  | cons d l ih =>
    rw [finish_cons]
    exact ih _ d

theorem endsLine_finish {m : Mode} (hm : m.endsLine = true) (l : Text) : (finish m l none).endsLine = true := by
  cases l with
  | nil => exact hm
  | cons c l => exact endsLine_finish_cons m c l

theorem isProper_exit {m : Mode} (hm : m.isProper = true) : (exit m []).isProper = true := by
  have hstep := isProper_step hm '\n' none
  rwa [step_newline] at hstep

section
variable {m : Mode} (hm : m.endsLine = true) (hproper : m.isProper = true) {b : Text} (hb : ∀ c ∈ b, isBlank c = true)
  (hline : '\n' ∉ b)
include hm hproper hb hline

/-- White space at the end of a line belongs to the segment that it comes in. -/
theorem kind_finish_blanks : (finish m b none).kind = m.kind := by
  induction b generalizing m with
  | nil => rfl
  | cons c b ih =>
    obtain ⟨hc, hb⟩ := List.forall_mem_cons.1 hb
    obtain ⟨hnewline, hline⟩ := not_or.1 (mt List.mem_cons.2 hline)
    have hmode := step_of_isInert hproper (isInert_of_isBlank hc (Ne.symm hnewline)) b.head?
    have hbehind : m.behind.endsLine = true ∧ m.behind.kind = m.kind := by
      cases m <;> first | exact ⟨rfl, rfl⟩ | cases hm
    rw [finish_cons, Option.or_none, hmode, ih hbehind.1 (isProper_behind hproper) hb hline, hbehind.2]

/-- Outside literals white space leads nowhere. -/
theorem finish_blanks (hliteral : m.kind ≠ .literal) : finish m b none = m := by
  have hbehind : m.behind = m := by
    cases m <;> first | rfl | exact absurd rfl hliteral | cases hm
  by_cases hnil : b = []
  · rw [hnil, finish_nil]
  · have hinert : ∀ c ∈ b, isInert c = true := fun c hc =>
      isInert_of_isBlank (hb c hc) fun hnewline => hline (hnewline ▸ hc)
    have hrun := finish_run hproper hnil hinert [] none
    rwa [List.append_nil, finish_nil, hbehind] at hrun

/-- Outside literals white space is read without further effect. -/
theorem partsFrom_blanks (hliteral : m.kind ≠ .literal) (y : Text) :
    partsFrom m (b ++ y) = ⟨b ++ (partsFrom m y).rest, (partsFrom m y).later⟩ := by
  have hbehind : m.behind = m := by
    cases m <;> first | rfl | exact absurd rfl hliteral | cases hm
  induction b with
  | nil => rfl
  | cons c b ih =>
    obtain ⟨hc, hb⟩ := List.forall_mem_cons.1 hb
    obtain ⟨hnewline, hline⟩ := not_or.1 (mt List.mem_cons.2 hline)
    have hmode := step_of_isInert hproper (isInert_of_isBlank hc (Ne.symm hnewline)) (b ++ y).head?
    rw [List.cons_append, partsFrom_cons, hmode, hbehind, ih hb hline]
    by_cases hcode : m = .code
    · rw [hcode, push_code]
      rfl
    · rw [push_within _ _ hcode hcode]
      rfl

end

/-- White space makes no mark. -/
theorem apart_blanks {b : Text} (hb : ∀ c ∈ b, isBlank c = true) (hline : '\n' ∉ b) {y : Text} (hy : Apart y) :
    Apart (b ++ y) := by
  cases b with
  | nil => exact hy
  | cons c b =>
    have hinert : isInert c = true :=
      isInert_of_isBlank (hb c List.mem_cons_self) fun hc => hline (hc ▸ List.mem_cons_self)
    exact ⟨fun h => ne_of_isInert hinert (by decide) (Option.some.inj h),
      fun h => ne_of_isInert hinert (by decide) (Option.some.inj h)⟩

/-- White space at the end of a line neither changes the kind of segment in which it ends nor, outside literals, the
    mode. -/
theorem finish_cut {m : Mode} (hm : m.opensLine = true) (hproper : m.isProper = true) (k : Text) {b : Text}
    (hb : ∀ c ∈ b, isBlank c = true) (hline : '\n' ∉ b) :
    (finish m (k ++ b) none).kind = (finish m k none).kind
      ∧ ((finish m k none).kind ≠ .literal → finish m (k ++ b) none = finish m k none) := by
  have hapart := apart_blanks hb hline (y := []) ⟨nofun, nofun⟩
  rw [List.append_nil] at hapart
  have hk := endsLine_finish (endsLine_of_opensLine hm) k
  have hkproper := isProper_finish hproper k none
  rw [finish_append_of_apart hapart]
  exact ⟨kind_finish_blanks hk hkproper hb hline, finish_blanks hk hkproper hb hline⟩

/-- A segment other than code goes on with each character but a line end. -/
theorem head?_rest {m : Mode} (hm : m ≠ .code) {c : Char} (hc : c ≠ '\n') (t : Text) :
    (partsFrom m (c :: t)).rest.head? = some c := by
  rw [partsFrom_cons]
  by_cases hnext : (step m c t.head?).2 = .code
  · rw [hnext, push_closes _ _ hm hc]
    rfl
  · rw [push_within _ _ hm hnext]
    rfl

/-- At a line end a segment ends or takes the line end along. -/
theorem endsLine_rest (m : Mode) {y : Text} (hy : EndsLine y) : EndsLine (partsFrom m y).rest := by
  cases y with
  | nil => rfl
  | cons c y =>
    obtain rfl : c = '\n' := by simpa [EndsLine] using hy
    rw [partsFrom_cons, Parts.push]
    by_cases hm : m = .code
    · subst hm
      rfl
    · by_cases hnext : (step m '\n' y.head?).2 = .code <;> simp [hm, hnext, EndsLine]

/-- A line end from which the text goes on in code is read in code. -/
theorem partsFrom_endsLine {m : Mode} (hm : m ≠ .code) (hexit : exit m [] = .code) (t : Text) :
    partsFrom m ('\n' :: t) = ⟨[], ⟨.code, (partsFrom .code ('\n' :: t)).rest⟩ :: (partsFrom .code ('\n' :: t)).later⟩ := by
  have hmode : (step m '\n' t.head?).2 = .code := by rw [step_newline, hexit]
  have hcode : (step .code '\n' t.head?).2 = .code := rfl
  rw [partsFrom_cons, hmode, push_newline _ hm, partsFrom_cons, hcode, push_code]

/-! ## Views -/

/-- The symbols of a segment: those that are seen in code, and a literal as it is. -/
def symbolsOf (seen : Text → List Text) (s : Segment) : List Text :=
  match s.kind with
  | .code    => seen s.text
  | .literal => [s.text]
  | _        => []

/-- The symbols of segments. -/
def symbols (seen : Text → List Text) (ss : List Segment) : List Text := ss.flatMap (symbolsOf seen)

/-- The segments of the kind are comments. -/
def SegmentKind.isComment (k : SegmentKind) : Bool := k == .lineComment || k == .blockComment

/-- The comments among segments. -/
def notes (ss : List Segment) : List Text := texts SegmentKind.isComment ss

theorem isComment_iff {k : SegmentKind} : k.isComment = true ↔ k ≠ .code ∧ k ≠ .literal := by cases k <;> decide

theorem symbols_cons_comment {seen : Text → List Text} {s : Segment} (hs : s.kind.isComment = true) (ss : List Segment) :
    symbols seen (s :: ss) = symbols seen ss := by
  obtain ⟨hcode, hliteral⟩ := isComment_iff.1 hs
  rw [symbols, List.flatMap_cons, symbolsOf]
  cases hkind : s.kind with
  | code => exact absurd hkind hcode
  | literal => exact absurd hkind hliteral
  | _ => rfl

theorem symbols_cons (seen : Text → List Text) (s : Segment) (ss : List Segment) :
    symbols seen (s :: ss) = symbolsOf seen s ++ symbols seen ss := List.flatMap_cons

theorem symbols_shown {seen : Text → List Text} (hnil : seen [] = []) (ss : List Segment) :
    symbols seen (shown ss) = symbols seen ss := by
  induction ss with
  | nil => rfl
  | cons s ss ih =>
    rw [symbols_cons, ← ih, shown, List.filter_cons]
    split
    · rw [symbols_cons, shown]
    · rename_i hs
      have hempty : s.kind = .code ∧ s.text = [] := by simpa using hs
      rw [symbolsOf, hempty.1, hempty.2, hnil, shown]
      rfl

/-- White space parts what is seen in code. -/
structure Parting (seen : Text → List Text) : Prop where
  nil : seen [] = []
  blank : ∀ x c y, isBlank c = true → seen (x ++ c :: y) = seen x ++ seen y

section
variable {seen : Text → List Text} (h : Parting seen)
include h

theorem Parting.blanks {b : Text} (hb : ∀ c ∈ b, isBlank c = true) : seen b = [] := by
  induction b with
  | nil => exact h.nil
  | cons c b ih =>
    obtain ⟨hc, hb⟩ := List.forall_mem_cons.1 hb
    rw [← List.nil_append (c :: b), h.blank [] c b hc, h.nil, ih hb]
    rfl

/-- White space at the end of a line does not show. -/
theorem Parting.endsLine {b r : Text} (hb : ∀ c ∈ b, isBlank c = true) (hr : EndsLine r) (x : Text) :
    seen (x ++ (b ++ r)) = seen (x ++ r) := by
  have hend : seen (x ++ b) = seen x := by
    cases b with
    | nil => rw [List.append_nil]
    | cons c b =>
      obtain ⟨hc, hb⟩ := List.forall_mem_cons.1 hb
      rw [h.blank x c b hc, h.blanks hb, List.append_nil]
  cases r with
  | nil => rw [List.append_nil, List.append_nil, hend]
  | cons c r =>
    obtain rfl : c = '\n' := by simpa [EndsLine] using hr
    rw [← List.append_assoc, h.blank _ _ _ isBlank_newline.1, h.blank _ _ _ isBlank_newline.1, hend]

end

/-- **Two texts in parts look alike**: they have the same symbols, behind any text that comes before, and their comments
    are related. -/
def Alike (seen : Text → List Text) (ρ : Text → Text → Prop) (m : Mode) (a b : Parts) : Prop :=
  (match m.kind with
    | .code    => ∀ x, seen (x ++ a.rest) ++ symbols seen a.later = seen (x ++ b.rest) ++ symbols seen b.later
    | .literal => a.rest = b.rest ∧ symbols seen a.later = symbols seen b.later
    | _        => (∀ x, ρ (x ++ a.rest) (x ++ b.rest)) ∧ symbols seen a.later = symbols seen b.later)
  ∧ List.Forall₂ ρ (notes a.later) (notes b.later)

section
variable {seen : Text → List Text} {ρ : Text → Text → Prop} {a b : Parts}

theorem alike_code : Alike seen ρ .code a b ↔
    (∀ x, seen (x ++ a.rest) ++ symbols seen a.later = seen (x ++ b.rest) ++ symbols seen b.later)
      ∧ List.Forall₂ ρ (notes a.later) (notes b.later) := Iff.rfl

theorem alike_literal {m : Mode} (hm : m.kind = .literal) : Alike seen ρ m a b ↔
    (a.rest = b.rest ∧ symbols seen a.later = symbols seen b.later)
      ∧ List.Forall₂ ρ (notes a.later) (notes b.later) := by
  rw [Alike, hm]

theorem alike_comment {m : Mode} (hcode : m.kind ≠ .code) (hliteral : m.kind ≠ .literal) : Alike seen ρ m a b ↔
    ((∀ x, ρ (x ++ a.rest) (x ++ b.rest)) ∧ symbols seen a.later = symbols seen b.later)
      ∧ List.Forall₂ ρ (notes a.later) (notes b.later) := by
  cases hm : m.kind with
  | code => exact absurd hm hcode
  | literal => exact absurd hm hliteral
  | _ => rw [Alike, hm]

theorem Alike.refl (hrefl : ∀ x, ρ x x) (m : Mode) (a : Parts) : Alike seen ρ m a a := by
  have hnotes : List.Forall₂ ρ (notes a.later) (notes a.later) := List.forall₂_same.2 fun x _ => hrefl x
  by_cases hcode : m = .code
  · subst hcode
    exact alike_code.2 ⟨fun x => rfl, hnotes⟩
  · by_cases hliteral : m.kind = .literal
    · exact (alike_literal hliteral).2 ⟨⟨rfl, rfl⟩, hnotes⟩
    · exact (alike_comment (mt kind_eq_code_iff.1 hcode) hliteral).2 ⟨⟨fun x => hrefl _, rfl⟩, hnotes⟩

theorem kind_step {m : Mode} {c : Char} {next : Option Char} (hm : m ≠ .code) (hnext : (step m c next).2 ≠ .code) :
    (step m c next).2.kind = m.kind := by
  cases m <;> simp only [step] at hnext ⊢ <;> (repeat' split) <;> first | rfl | simp_all

/-- Behind a segment that goes on with the same text, code looks alike if it has the same symbols. -/
theorem alike_of_code {m : Mode} (hm : m ≠ .code) (hrefl : ∀ x, ρ x x) (r : Text) {u v : Text} {l k : List Segment}
    (hshow : seen u ++ symbols seen l = seen v ++ symbols seen k) (hnotes : List.Forall₂ ρ (notes l) (notes k)) :
    Alike seen ρ m ⟨r, ⟨.code, u⟩ :: l⟩ ⟨r, ⟨.code, v⟩ :: k⟩ := by
  by_cases hliteral : m.kind = .literal
  · exact (alike_literal hliteral).2 ⟨⟨rfl, hshow⟩, hnotes⟩
  · exact (alike_comment (mt kind_eq_code_iff.1 hm) hliteral).2 ⟨⟨fun x => hrefl _, hshow⟩, hnotes⟩

/-- What looks alike does so with another character in front. -/
theorem Alike.push (hrefl : ∀ x, ρ x x) {m : Mode} (c : Char) (next : Option Char)
    (h : Alike seen ρ (step m c next).2 a b) :
    Alike seen ρ m (a.push c m (step m c next).2) (b.push c m (step m c next).2) := by
  by_cases hnext : (step m c next).2 = .code
  · rw [hnext] at h ⊢
    obtain ⟨hshow, hnotes⟩ := alike_code.1 h
    by_cases hm : m = .code
    · subst hm
      refine alike_code.2 ⟨fun x => ?_, hnotes⟩
      simpa [push_code] using hshow (x ++ [c])
    · by_cases hc : c = '\n'
      · subst hc
        rw [push_newline _ hm, push_newline _ hm]
        exact alike_of_code hm hrefl [] (hshow ['\n']) hnotes
      · rw [push_closes _ _ hm hc, push_closes _ _ hm hc]
        exact alike_of_code hm hrefl [c] (hshow []) hnotes
  · by_cases hm : m = .code
    · subst hm
      rw [push_opens _ _ hnext, push_opens _ _ hnext]
      by_cases hliteral : (step .code c next).2.kind = .literal
      · obtain ⟨⟨hrest, hshow⟩, hnotes⟩ := (alike_literal hliteral).1 h
        rw [hliteral, hrest]
        exact alike_code.2 ⟨fun x => congrArg (fun l => seen (x ++ []) ++ (c :: b.rest) :: l) hshow, hnotes⟩
      · obtain ⟨⟨hrest, hshow⟩, hnotes⟩ := (alike_comment (mt kind_eq_code_iff.1 hnext) hliteral).1 h
        have hcomment : (step .code c next).2.kind.isComment = true :=
          isComment_iff.2 ⟨mt kind_eq_code_iff.1 hnext, hliteral⟩
        refine alike_code.2 ⟨fun x => ?_, ?_⟩
        · rw [symbols_cons_comment hcomment, symbols_cons_comment hcomment, hshow]
        · rw [notes, notes, texts_cons_of_pos hcomment, texts_cons_of_pos hcomment]
          exact .cons (hrest [c]) hnotes
    · rw [push_within _ _ hm hnext, push_within _ _ hm hnext]
      have hkind := kind_step hm hnext
      by_cases hliteral : m.kind = .literal
      · obtain ⟨⟨hrest, hshow⟩, hnotes⟩ := (alike_literal (hkind.trans hliteral)).1 h
        exact (alike_literal hliteral).2 ⟨⟨congrArg (c :: ·) hrest, hshow⟩, hnotes⟩
      · have hcode : m.kind ≠ .code := mt kind_eq_code_iff.1 hm
        obtain ⟨⟨hrest, hshow⟩, hnotes⟩ := (alike_comment (hkind ▸ hcode) (hkind ▸ hliteral)).1 h
        refine (alike_comment hcode hliteral).2 ⟨⟨fun x => ?_, hshow⟩, hnotes⟩
        simpa using hrest (x ++ [c])

theorem Alike.pushAll (hrefl : ∀ x, ρ x x) {m : Mode} {x : Text} (h : Alike seen ρ (finish m x none) a b) :
    Alike seen ρ m (a.pushAll m x) (b.pushAll m x) := by
  induction x generalizing m with
  | nil => exact h
  | cons c x ih =>
    rw [finish_cons, Option.or_none] at h
    exact (ih h).push hrefl c _

end

/-! ## Tidied texts -/

/-- What comes behind a line: the other lines, each behind a line end. -/
def behind (ls : List Text) : Text := ls.flatMap ('\n' :: ·)

theorem endsLine_behind (ls : List Text) : EndsLine (behind ls) := by
  cases ls <;> rfl

section
variable {seen : Text → List Text} {ρ : Text → Text → Prop} {p : SegmentKind → Prop}

/-- White space that goes at the end of a line does not show outside literals. -/
theorem Alike.trim (hseen : Parting seen) (htrans : ∀ x y z, ρ x y → ρ y z → ρ x z)
    (hcomment : ∀ k, p k → k ≠ .code → ∀ x b r, (∀ c ∈ b, isBlank c = true) → EndsLine r → ρ (x ++ (b ++ r)) (x ++ r))
    {m : Mode} (hm : m.endsLine = true) (hproper : m.isProper = true) (hp : p m.kind) (hliteral : m.kind ≠ .literal)
    {b y y' : Text} (hb : ∀ c ∈ b, isBlank c = true) (hline : '\n' ∉ b) (hy : EndsLine y)
    (h : Alike seen ρ m (partsFrom m y) (partsFrom m y')) : Alike seen ρ m (partsFrom m (b ++ y)) (partsFrom m y') := by
  rw [partsFrom_blanks hm hproper hb hline hliteral]
  by_cases hcode : m = .code
  · subst hcode
    obtain ⟨hshow, hnotes⟩ := alike_code.1 h
    refine alike_code.2 ⟨fun x => ?_, hnotes⟩
    rw [hseen.endsLine hb (endsLine_rest .code hy), hshow]
  · have hcode := mt kind_eq_code_iff.1 hcode
    obtain ⟨⟨hrest, hshow⟩, hnotes⟩ := (alike_comment hcode hliteral).1 h
    refine (alike_comment hcode hliteral).2 ⟨⟨fun x => ?_, hshow⟩, hnotes⟩
    exact htrans _ _ _ (hcomment _ hp hcode x b _ hb (endsLine_rest m hy)) (hrest x)

/-- Behind a mode that a line end leads into code, a text looks as it does in code. -/
theorem alike_behind (hseen : Parting seen) (hrefl : ∀ x, ρ x x) {m : Mode} (hm : m ≠ .code) (hexit : exit m [] = .code)
    {u : Text} {l : List Segment} {ks : List Text}
    (hshow : seen u ++ symbols seen l = seen (partsFrom .code (behind ks)).rest
      ++ symbols seen (partsFrom .code (behind ks)).later)
    (hnotes : List.Forall₂ ρ (notes l) (notes (partsFrom .code (behind ks)).later)) :
    Alike seen ρ m ⟨[], ⟨.code, u⟩ :: l⟩ (partsFrom m (behind ks)) := by
  cases ks with
  | nil =>
    have hsymbols : symbols seen (⟨.code, u⟩ :: l) = symbols seen [] := hshow.trans (by rw [behind, List.flatMap_nil,
      partsFrom_nil, hseen.nil, List.nil_append])
    by_cases hliteral : m.kind = .literal
    · exact (alike_literal hliteral).2 ⟨⟨rfl, hsymbols⟩, hnotes⟩
    · exact (alike_comment (mt kind_eq_code_iff.1 hm) hliteral).2 ⟨⟨fun x => hrefl _, hsymbols⟩, hnotes⟩
  | cons k ks =>
    rw [show behind (k :: ks) = '\n' :: (k ++ behind ks) from rfl] at hshow hnotes ⊢
    rw [partsFrom_endsLine hm hexit]
    exact alike_of_code hm hrefl [] hshow hnotes

/-- A blank line that goes does not show in code. -/
theorem Alike.drop (hseen : Parting seen) (hrefl : ∀ x, ρ x x) {m : Mode} (hexit : exit m [] = .code) {l : Text}
    (hl : isBlankLine l = true) (hline : '\n' ∉ l) {ls ks : List Text}
    (h : Alike seen ρ .code (partsFrom .code (behind ls)) (partsFrom .code (behind ks))) :
    Alike seen ρ m (partsFrom m ('\n' :: (l ++ behind ls))) (partsFrom m (behind ks)) := by
  obtain ⟨hshow, hnotes⟩ := alike_code.1 h
  have hblank : ∀ c ∈ '\n' :: l, isBlank c = true :=
    List.forall_mem_cons.2 ⟨isBlank_newline.1, List.all_eq_true.1 hl⟩
  have hcode : partsFrom .code ('\n' :: (l ++ behind ls)) =
      ⟨'\n' :: l ++ (partsFrom .code (behind ls)).rest, (partsFrom .code (behind ls)).later⟩ := by
    have hmode : (step .code '\n' (l ++ behind ls).head?).2 = .code := rfl
    rw [partsFrom_cons, hmode, partsFrom_blanks rfl rfl (List.all_eq_true.1 hl) hline (by decide), push_code]
    rfl
  have hgone (x : Text) : seen (x ++ ('\n' :: l ++ (partsFrom .code (behind ls)).rest)) =
      seen (x ++ (partsFrom .code (behind ls)).rest) :=
    hseen.endsLine hblank (endsLine_rest .code (endsLine_behind ls)) x
  by_cases hm : m = .code
  · subst hm
    rw [hcode]
    refine alike_code.2 ⟨fun x => ?_, hnotes⟩
    rw [hgone, hshow]
  · rw [partsFrom_endsLine hm hexit, hcode]
    refine alike_behind hseen hrefl hm hexit ?_ hnotes
    have hstart := hgone []
    rw [List.nil_append, List.nil_append] at hstart
    rw [hstart]
    exact hshow []

/-- A line is read on its own, and the rest from the mode at its end. -/
theorem partsFrom_behind_line (m : Mode) (l : Text) {y : Text} (hy : Apart y) : partsFrom m ('\n' :: (l ++ y)) =
    ((partsFrom (finish (exit m []) l none) y).pushAll (exit m []) l).push '\n' m (exit m []) := by
  rw [partsFrom_cons, step_newline, partsFrom_append _ _ hy]

/-- What looks alike behind a line does so with the line. -/
theorem Alike.line (hrefl : ∀ x, ρ x x) {m : Mode} {l y y' : Text} (hy : Apart y) (hy' : Apart y')
    (h : Alike seen ρ (finish (exit m []) l none) (partsFrom (finish (exit m []) l none) y)
      (partsFrom (finish (exit m []) l none) y')) :
    Alike seen ρ m (partsFrom m ('\n' :: (l ++ y))) (partsFrom m ('\n' :: (l ++ y'))) := by
  have hbehind := h.pushAll hrefl
  have hpush := Alike.push hrefl (m := m) '\n' none (by rwa [step_newline])
  rw [partsFrom_behind_line m l hy, partsFrom_behind_line m l hy']
  rwa [step_newline] at hpush

/-- What looks alike behind a line does so with the line cut, outside literals. -/
theorem Alike.cut (hseen : Parting seen) (hrefl : ∀ x, ρ x x) (htrans : ∀ x y z, ρ x y → ρ y z → ρ x z)
    (hcomment : ∀ k, p k → k ≠ .code → ∀ x b r, (∀ c ∈ b, isBlank c = true) → EndsLine r → ρ (x ++ (b ++ r)) (x ++ r))
    (hnone : ¬ p .literal) {m : Mode} (hm : m.isProper = true) {k b y y' : Text} (hb : ∀ c ∈ b, isBlank c = true)
    (hline : '\n' ∉ b) (hy : EndsLine y) (hy' : Apart y') (hp : p (finish (exit m []) (k ++ b) none).kind)
    (h : Alike seen ρ (finish (exit m []) (k ++ b) none) (partsFrom (finish (exit m []) (k ++ b) none) y)
      (partsFrom (finish (exit m []) (k ++ b) none) y')) :
    Alike seen ρ m (partsFrom m ('\n' :: (k ++ b ++ y))) (partsFrom m ('\n' :: (k ++ y'))) := by
  have hopens := opensLine_exit m []
  obtain ⟨hkind, hmode⟩ := finish_cut hopens (isProper_exit hm) k hb hline
  rw [hkind] at hp
  have hliteral : (finish (exit m []) k none).kind ≠ .literal := fun heq => hnone (heq ▸ hp)
  rw [hmode hliteral] at h
  rw [List.append_assoc]
  refine Alike.line hrefl (apart_blanks hb hline hy.apart) hy' ?_
  exact Alike.trim hseen htrans hcomment (endsLine_finish (endsLine_of_opensLine hopens) k)
    (isProper_finish (isProper_exit hm) k none) hp hliteral hb hline hy h

/-- **Lines that lose white space look alike** where it lies in segments of which that can be said. -/
theorem alike_tidied (hseen : Parting seen) (hrefl : ∀ x, ρ x x) (htrans : ∀ x y z, ρ x y → ρ y z → ρ x z)
    (hcomment : ∀ k, p k → k ≠ .code → ∀ x b r, (∀ c ∈ b, isBlank c = true) → EndsLine r → ρ (x ++ (b ++ r)) (x ++ r))
    (hnone : ¬ p .literal) {m : Mode} (hm : m.isProper = true) {ls : List (Text × Bool)}
    (hlines : ∀ l ∈ ls, '\n' ∉ l.1) (hdrops : DropsCode (exit m []) ls) (htrims : TrimsIn p (exit m []) ls) :
    Alike seen ρ m (partsFrom m (behind (ls.map Prod.fst))) (partsFrom m (behind (tidied ls))) := by
  induction ls generalizing m with
  | nil => exact Alike.refl hrefl m _
  | cons line ls ih =>
    obtain ⟨l, marked⟩ := line
    obtain ⟨hl, hls⟩ := List.forall_mem_cons.1 hlines
    obtain ⟨hdrop, hdrops⟩ := hdrops
    obtain ⟨htrim, htrims⟩ := htrims
    have hrest := ih (isProper_finish (isProper_exit hm) l none) hls (exit_eq _ l ▸ hdrops) (exit_eq _ l ▸ htrims)
    have hends (ks : List Text) := (endsLine_behind ks).apart
    rcases tidied_cases l marked ls with ⟨htidied, -⟩ | ⟨htidied, hmarked, hblank⟩ |
      ⟨k, b, htidied, hmarked, hcut, rfl, -, hblanks⟩
    · -- The line stays.
      rw [htidied]
      exact Alike.line hrefl (hends _) (hends _) hrest
    · -- The line goes.
      obtain ⟨hcode, hexit⟩ := exit_of_goes hblank (hdrop hmarked hblank)
      rw [hexit] at hdrops htrims
      rw [htidied]
      exact Alike.drop hseen hrefl hcode hblank hl (ih (m := .code) rfl hls hdrops htrims)
    · -- The line is cut.
      rw [htidied]
      exact Alike.cut hseen hrefl htrans hcomment hnone hm hblanks (fun hmem => hl (List.mem_append_right k hmem))
        (endsLine_behind _) (hends _) ((htrim hmarked).resolve_left hcut) hrest

end

/-! ## Joined lines -/

theorem behind_eq {ls : List Text} (hne : ls ≠ []) : behind ls = '\n' :: joinWith ['\n'] ls := by
  obtain ⟨l, ls, rfl⟩ := List.exists_cons_of_ne_nil hne
  rw [joinWith_cons_eq_flatMap]
  rfl

/-- A line end in front changes nothing but the code. -/
theorem partsFrom_behind (ls : List Text) : (partsFrom .code (behind ls)).later =
    (partsFrom .code (joinWith ['\n'] ls)).later
      ∧ ((partsFrom .code (behind ls)).rest = (partsFrom .code (joinWith ['\n'] ls)).rest
        ∨ (partsFrom .code (behind ls)).rest = '\n' :: (partsFrom .code (joinWith ['\n'] ls)).rest) := by
  by_cases hne : ls = []
  · subst hne
    exact ⟨rfl, .inl rfl⟩
  · have hcode (t : Text) : (step .code '\n' t.head?).2 = .code := rfl
    rw [behind_eq hne, partsFrom_cons, hcode, push_code]
    exact ⟨rfl, .inr rfl⟩

theorem texts_joinWith {K : SegmentKind → Bool} (hcode : K .code = false) (ls : List Text) :
    texts K (segments (joinWith ['\n'] ls)) = texts K (partsFrom .code (behind ls)).later := by
  rw [segments_eq, Parts.fromCode, texts_shown hcode, texts_cons_of_neg hcode, (partsFrom_behind ls).1]

theorem symbols_joinWith {seen : Text → List Text} (hseen : Parting seen) (ls : List Text) :
    symbols seen (segments (joinWith ['\n'] ls)) = seen (partsFrom .code (behind ls)).rest
      ++ symbols seen (partsFrom .code (behind ls)).later := by
  obtain ⟨hlater, hrest⟩ := partsFrom_behind ls
  have hshow : seen (partsFrom .code (behind ls)).rest = seen (partsFrom .code (joinWith ['\n'] ls)).rest := by
    rcases hrest with hrest | hrest
    · rw [hrest]
    · have hblank := hseen.blank [] '\n' (partsFrom .code (joinWith ['\n'] ls)).rest isBlank_newline.1
      rwa [hseen.nil, List.nil_append, List.nil_append, ← hrest] at hblank
  rw [segments_eq, Parts.fromCode, symbols_shown hseen.nil, hlater, hshow]
  exact symbols_cons _ _ _

/-- **A text that loses white space at the end of lines** keeps its symbols, and its comments are related, where that can
    be said of the segments in which it lies. -/
theorem alike_joinWith {seen : Text → List Text} {ρ : Text → Text → Prop} {p : SegmentKind → Prop} (hseen : Parting seen)
    (hrefl : ∀ x, ρ x x) (htrans : ∀ x y z, ρ x y → ρ y z → ρ x z)
    (hcomment : ∀ k, p k → k ≠ .code → ∀ x b r, (∀ c ∈ b, isBlank c = true) → EndsLine r → ρ (x ++ (b ++ r)) (x ++ r))
    (hnone : ¬ p .literal) {ls : List (Text × Bool)} (hlines : ∀ l ∈ ls, '\n' ∉ l.1) (hdrops : DropsCode .code ls)
    (htrims : TrimsIn p .code ls) :
    symbols seen (segments (joinWith ['\n'] (tidied ls))) = symbols seen (segments (joinWith ['\n'] (ls.map Prod.fst)))
      ∧ List.Forall₂ ρ (notes (segments (joinWith ['\n'] (ls.map Prod.fst))))
        (notes (segments (joinWith ['\n'] (tidied ls)))) := by
  have halike := alike_tidied hseen hrefl htrans hcomment hnone (m := .code) rfl hlines hdrops htrims
  obtain ⟨hshow, hnotes⟩ := alike_code.1 halike
  rw [symbols_joinWith hseen, symbols_joinWith hseen, notes, notes, texts_joinWith rfl, texts_joinWith rfl]
  exact ⟨(hshow []).symm, hnotes⟩

end JavaMend.Java
