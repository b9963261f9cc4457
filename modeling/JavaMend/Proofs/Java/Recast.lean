import JavaMend.Proofs.Java.Literals

/-!
# `Proofs.Java.Recast` — edits that know no literals

Some edits of a line replace runs of characters that neither open nor close anything, and look at nothing beyond the
next quote. Such an edit moves no literal, and does to a literal in the line what it would do to it on its own
(`Recasts.literalWise`).

## Contents
- **Inert characters.** `delimiters`, `isInert`, `Mode.isProper`, `Mode.behind`; `step_of_isInert`, `finish_run`.
- **Between quotes.** `isQuote`; `litFrom_unquoted`, `litFrom_quote`.
- **Recast texts.** `Recast`; `Recast.finish_eq`, `Recast.mem_iff`.
- **Edits of lines.** `LiteralWise`, `Recasts`; `LiteralWise.comp`, `Recasts.literalWise`.
-/

namespace JavaMend.Java

open JavaMend Text

/-! ## Inert characters -/

/-- The characters that open or close something, or keep a quote from it. -/
def delimiters : Text := ['/', '*', '"', '\'', '\\', '\n']

/-- The character opens and closes nothing, wherever it stands. -/
def isInert (c : Char) : Bool := c ∉ delimiters

/-- The character is a quote. -/
def isQuote (c : Char) : Bool := c == '"' || c == '\''

/-- If a literal is open, a quote has opened it. -/
def Mode.isProper : Mode → Bool
  | .literal q | .escaped q => isQuote q
  | _                       => true

/-- The mode behind an inert character. -/
def Mode.behind : Mode → Mode
  | .blockOpens  => .block
  | .blockCloses => .code
  | .escaped q   => .literal q
  | m            => m

theorem ne_of_isInert {c d : Char} (hc : isInert c = true) (hd : isInert d = false) : c ≠ d := by
  rintro rfl
  rw [hc] at hd
  cases hd

theorem isQuote_iff {c : Char} : isQuote c = true ↔ c = '"' ∨ c = '\'' := by
  simp [isQuote]

theorem not_isInert_of_isQuote {c : Char} (h : isQuote c = true) : isInert c = false := by
  rcases isQuote_iff.1 h with rfl | rfl <;> rfl

/-- A property that no delimiter has makes a character inert. -/
theorem isInert_of {p : Char → Bool} (hp : delimiters.any p = false) {c : Char} (h : p c = true) : isInert c = true := by
  refine Bool.of_not_eq_false fun hc => ?_
  have hmem : c ∈ delimiters := Decidable.not_not.1 (of_decide_eq_false hc)
  exact List.any_eq_false.1 hp c hmem h

theorem not_quote {p : Char → Bool} (hp : p '"' = false ∧ p '\'' = false) {q : Char} (hq : isQuote q = true) :
    p q = false := by
  rcases isQuote_iff.1 hq with rfl | rfl
  · exact hp.1
  · exact hp.2

theorem isInert_of_isBlank {c : Char} (h : isBlank c = true) (hline : c ≠ '\n') : isInert c = true :=
  isInert_of (p := fun c => isBlank c && c != '\n') (by decide) (by simp [h, hline])

theorem not_isQuote_of_isInert {c : Char} (h : isInert c = true) : isQuote c = false := by
  refine Bool.eq_false_iff.2 fun hquote => ?_
  rw [not_isInert_of_isQuote hquote] at h
  cases h

theorem apart_of_isInert {u : Text} (hu : ∀ c ∈ u, isInert c = true) : Apart u := by
  cases u with
  | nil => exact ⟨nofun, nofun⟩
  | cons c u =>
    have hc := hu c List.mem_cons_self
    exact ⟨fun h => ne_of_isInert hc (by decide) (Option.some.inj h),
      fun h => ne_of_isInert hc (by decide) (Option.some.inj h)⟩

theorem newline_not_mem_of_isInert {u : Text} (hu : ∀ c ∈ u, isInert c = true) : '\n' ∉ u :=
  fun hmem => ne_of_isInert (hu _ hmem) (by decide) rfl

theorem step_of_isInert {m : Mode} (hm : m.isProper = true) {c : Char} (h : isInert c = true) (next : Option Char) :
    (step m c next).2 = m.behind := by
  have hslash : c ≠ '/' := ne_of_isInert h (by decide)
  have hstar : c ≠ '*' := ne_of_isInert h (by decide)
  have hquote : c ≠ '"' := ne_of_isInert h (by decide)
  have hapostrophe : c ≠ '\'' := ne_of_isInert h (by decide)
  have hbackslash : c ≠ '\\' := ne_of_isInert h (by decide)
  have hnewline : c ≠ '\n' := ne_of_isInert h (by decide)
  cases m with
  | literal q =>
    have hq : c ≠ q := ne_of_isInert h (not_isInert_of_isQuote hm)
    simp [step, Mode.behind, hbackslash, hnewline, hq]
  | _ => simp [step, Mode.behind, hslash, hstar, hquote, hapostrophe, hnewline]

theorem isProper_step {m : Mode} (hm : m.isProper = true) (c : Char) (next : Option Char) :
    (step m c next).2.isProper = true := by
  cases m with
  | code =>
    simp only [step]
    split
    · rfl
    · split
      · rfl
      · split
        · rename_i hc
          exact isQuote_iff.2 hc
        · rfl
  | literal q =>
    simp only [step]
    split
    · exact hm
    · split
      · rfl
      · exact hm
  | escaped q => exact hm
  | _ =>
    simp only [step]
    first | rfl | (split <;> rfl)

theorem isProper_finish {m : Mode} (hm : m.isProper = true) (t : Text) (next : Option Char) :
    (finish m t next).isProper = true := by
  induction t generalizing m with
  | nil => exact hm
  | cons c t ih => exact ih (isProper_step hm c _)

theorem isProper_behind {m : Mode} (hm : m.isProper = true) : m.behind.isProper = true := by
  cases m <;> first | rfl | exact hm

theorem behind_behind (m : Mode) : m.behind.behind = m.behind := by cases m <;> rfl

theorem behind_inLiteral (m : Mode) : m.behind.inLiteral = m.inLiteral := by cases m <;> rfl

theorem exit_behind (m : Mode) (hm : m.inLiteral = false) : exit m.behind [] = exit m [] := by
  cases m <;> first | rfl | cases hm

/-- **A run of inert characters** leads behind the mode in which it begins. -/
theorem finish_run {m : Mode} (hm : m.isProper = true) {u : Text} (hne : u ≠ []) (hu : ∀ c ∈ u, isInert c = true)
    (s : Text) (next : Option Char) : finish m (u ++ s) next = finish m.behind s next := by
  induction u generalizing m with
  | nil => exact absurd rfl hne
  | cons c u ih =>
    obtain ⟨hc, hu⟩ := List.forall_mem_cons.1 hu
    rw [List.cons_append, finish_cons, step_of_isInert hm hc]
    by_cases hnil : u = []
    · rw [hnil, List.nil_append]
    · rw [ih (isProper_behind hm) hnil hu, behind_behind]

/-! ## Between quotes -/

/-- What comes next is of no account behind a quote. -/
theorem step_quote_congr {q : Char} (hq : isQuote q = true) (m : Mode) (next next' : Option Char) :
    step m q next = step m q next' := by
  rcases isQuote_iff.1 hq with rfl | rfl <;> cases m <;> simp [step]

/-- Only a quote or a line end can close a literal, and only a quote can open one. -/
theorem step_inLiteral_eq {m : Mode} (hm : m.isProper = true) {c : Char} (hc : isQuote c = false) (hline : c ≠ '\n')
    (next : Option Char) : (step m c next).2.inLiteral = m.inLiteral := by
  cases m with
  | literal q =>
    have hq : c ≠ q := by
      rintro rfl
      rw [Mode.isProper, hc] at hm
      cases hm
    simp only [step]
    split
    · rfl
    · simp [hline, hq, Mode.inLiteral]
  | escaped q => rfl
  | _ =>
    refine Bool.eq_false_iff.2 fun hin => ?_
    obtain ⟨-, hquote, -⟩ := step_inLiteral rfl hin
    rw [isQuote_iff.2 hquote] at hc
    cases hc

/-- **Without a quote no literal opens or closes**: what is read belongs to the open literal, if there is one. -/
theorem litFrom_unquoted {m : Mode} (hm : m.isProper = true) {x : Text} (hx : ∀ c ∈ x, isQuote c = false)
    (hline : '\n' ∉ x) (r : Text) : litFrom m (x ++ r) =
      (if m.inLiteral then x ++ (litFrom (finish m x r.head?) r).1 else [], (litFrom (finish m x r.head?) r).2) := by
  induction x generalizing m with
  | nil =>
    by_cases hin : m.inLiteral = true
    · simp [hin]
    · have hnone := litFrom_fst_of_not_inLiteral (Bool.eq_false_iff.2 hin) r
      exact Prod.ext (by simp [hin, hnone]) rfl
  | cons c x ih =>
    obtain ⟨hc, hx⟩ := List.forall_mem_cons.1 hx
    obtain ⟨hnewline, hline⟩ := not_or.1 (mt List.mem_cons.2 hline)
    have hhead : (x ++ r).head? = x.head?.or r.head? := by cases x <;> rfl
    have hquote : ¬(c = '"' ∨ c = '\'') := by
      rw [← isQuote_iff, hc]
      simp
    -- The character belongs to the literal that is open, if one is, and opens no other.
    have hrest := ih (isProper_step hm c (x ++ r).head?) hx hline
    rw [step_inLiteral_eq hm hc (Ne.symm hnewline), hhead] at hrest
    rw [List.cons_append, litFrom, hhead, hrest, ← finish_cons]
    cases m with
    | code => simp [hquote, Mode.inLiteral]
    | literal q => simp [Ne.symm hnewline, Mode.inLiteral]
    | escaped q => simp [Mode.inLiteral]
    | _ => simp [Mode.inLiteral]

/-- The rest of a literal opens as the text. -/
theorem head_litFrom {m : Mode} {c d : Char} {t : Text} (h : d ∈ (litFrom m (c :: t)).1.head?) : d = c := by
  cases m with
  | literal q =>
    rw [litFrom_literal_cons] at h
    split at h
    · cases h
    · exact (Option.mem_some.1 h).symm
  | escaped q => exact (Option.mem_some.1 h).symm
  | _ => cases h

/-! ## Recast texts -/

/-- **A text recast**: runs of inert characters give way to others, and every other character stays. -/
inductive Recast : Text → Text → Prop where
  | nil : Recast [] []
  | char (c : Char) {s t : Text} : Recast s t → Recast (c :: s) (c :: t)
  | run {u v s t : Text} : u ≠ [] → v ≠ [] → (∀ c ∈ u, isInert c = true) → (∀ c ∈ v, isInert c = true) → Recast s t →
      Recast (u ++ s) (v ++ t)

theorem Recast.eq_nil {v : Text} (h : Recast [] v) : v = [] := by
  generalize hs : ([] : Text) = s at h
  cases h with
  | nil => rfl
  | char => cases hs
  | run hu => exact absurd (List.append_eq_nil_iff.1 hs.symm).1 hu

theorem Recast.of_append {w s t : Text} (h : Recast s t) : Recast (w ++ s) (w ++ t) := by
  induction w with
  | nil => exact h
  | cons c w ih => exact .char c ih

/-- A mark that is not inert comes next in the one text if it comes next in the other. -/
theorem Recast.next_iff {s t : Text} (h : Recast s t) {d : Char} (hd : isInert d = false) (next : Option Char) :
    s.head?.or next = some d ↔ t.head?.or next = some d := by
  cases h with
  | nil => rfl
  | char c => rfl
  | @run u v s t hu hv hinu hinv _ =>
    have hne {w r : Text} (hw : w ≠ []) (hin : ∀ c ∈ w, isInert c = true) : (w ++ r).head?.or next ≠ some d := by
      obtain ⟨c, w, rfl⟩ := List.exists_cons_of_ne_nil hw
      simpa using ne_of_isInert (hin c List.mem_cons_self) hd
    exact iff_of_false (hne hu hinu) (hne hv hinv)

/-- **A recast text leads to the same mode.** -/
theorem Recast.finish_eq {s t : Text} (h : Recast s t) {m : Mode} (hm : m.isProper = true) (next : Option Char) :
    finish m t next = finish m s next := by
  induction h generalizing m with
  | nil => rfl
  | @char c s t h ih =>
    have hnext : step m c (t.head?.or next) = step m c (s.head?.or next) := by
      refine step_congr (fun d hd => (h.next_iff ?_ next).symm) m c
      rcases hd with rfl | rfl <;> rfl
    rw [finish_cons, finish_cons, hnext, ih (isProper_step hm c _)]
  | @run u v s t hu hv hinu hinv h ih =>
    rw [finish_run hm hu hinu, finish_run hm hv hinv, ih (isProper_behind hm)]

/-- Recasting neither adds nor removes a mark that is not inert. -/
theorem Recast.mem_iff {s t : Text} (h : Recast s t) {d : Char} (hd : isInert d = false) : d ∈ t ↔ d ∈ s := by
  induction h with
  | nil => rfl
  | char c h ih => rw [List.mem_cons, List.mem_cons, ih]
  | @run u v s t hu hv hinu hinv h ih =>
    have hu : d ∉ u := fun hmem => ne_of_isInert (hinu d hmem) hd rfl
    have hv : d ∉ v := fun hmem => ne_of_isInert (hinv d hmem) hd rfl
    simp [hu, hv, ih]

/-! ## Edits of lines -/

/-- What an edit of a line does to the literals in it is what it does to each on its own, and behind the line is what was
    behind it. -/
structure LiteralWise (g : Text → Text) : Prop where
  /-- An edited line is one line. -/
  line {l : Text} : '\n' ∉ l → '\n' ∉ g l
  finish {m : Mode} {l : Text} : m.isProper = true → '\n' ∉ l → finish m (g l) none = finish m l none
  litFrom {m : Mode} {l : Text} : m.isProper = true → '\n' ∉ l →
    litFrom m (g l) = (g (litFrom m l).1, (litFrom m l).2.map g)

/-- **An edit that knows no literals**: it recasts a line, the parts between two quotes each on its own. -/
structure Recasts (g : Text → Text) : Prop where
  recast (l : Text) : Recast l (g l)
  cut {q : Char} (x y : Text) : isQuote q = true → g (x ++ q :: y) = g x ++ q :: g y

variable {f g : Text → Text}

theorem LiteralWise.comp (hf : LiteralWise f) (hg : LiteralWise g) : LiteralWise fun l => f (g l) where
  line hl := hf.line (hg.line hl)
  finish hm hl := by rw [hf.finish hm (hg.line hl), hg.finish hm hl]
  litFrom hm hl := by rw [hf.litFrom hm (hg.line hl), hg.litFrom hm hl, List.map_map]; rfl

/-- A line has no quote, or a first one. -/
theorem quoted_or_unquoted (l : Text) :
    (∀ c ∈ l, isQuote c = false) ∨ ∃ x q y, l = x ++ q :: y ∧ isQuote q = true ∧ ∀ c ∈ x, isQuote c = false := by
  induction l with
  | nil => exact .inl fun c hc => nomatch hc
  | cons c l ih =>
    by_cases hc : isQuote c = true
    · exact .inr ⟨[], c, l, rfl, hc, fun d hd => nomatch hd⟩
    · rcases ih with hnone | ⟨x, q, y, rfl, hq, hx⟩
      · exact .inl (List.forall_mem_cons.2 ⟨Bool.eq_false_iff.2 hc, hnone⟩)
      · exact .inr ⟨c :: x, q, y, rfl, hq, List.forall_mem_cons.2 ⟨Bool.eq_false_iff.2 hc, hx⟩⟩

namespace Recasts

variable (h : Recasts g)

include h

theorem nil : g [] = [] := (h.recast []).eq_nil

theorem cons_quote {q : Char} (hq : isQuote q = true) (y : Text) : g (q :: y) = q :: g y := by
  have hcut := h.cut [] y hq
  rwa [h.nil] at hcut

/-- A part without quotes stays without. -/
theorem unquoted {x : Text} (hx : ∀ c ∈ x, isQuote c = false) : ∀ c ∈ g x, isQuote c = false := by
  intro c hc
  refine Bool.eq_false_iff.2 fun hquote => ?_
  have hmem := ((h.recast x).mem_iff (not_isInert_of_isQuote hquote)).1 hc
  rw [hx c hmem] at hquote
  cases hquote

/-- What is cut off before a quote is edited on its own. -/
theorem append_quoted (x : Text) {r : Text} (hr : ∀ c ∈ r.head?, isQuote c = true) : g (x ++ r) = g x ++ g r := by
  cases r with
  | nil => rw [h.nil, List.append_nil, List.append_nil]
  | cons q y => rw [h.cut x y (hr q rfl), h.cons_quote (hr q rfl)]

/-- The literals from a quote on are edited if those behind it are. -/
theorem litFrom_cons_quote {q : Char} (hq : isQuote q = true) {y : Text} {m : Mode}
    (hrest : litFrom (step m q none).2 (g y) =
      (g (litFrom (step m q none).2 y).1, (litFrom (step m q none).2 y).2.map g)) :
    litFrom m (q :: g y) = (g (litFrom m (q :: y)).1, (litFrom m (q :: y)).2.map g) := by
  have hquote := isQuote_iff.1 hq
  have hline : q ≠ '\n' := by
    rintro rfl
    exact absurd hq (by decide)
  rw [litFrom, litFrom, step_quote_congr hq m (g y).head? none, step_quote_congr hq m y.head? none, hrest]
  cases m with
  | code => simp [hquote, h.nil, h.cons_quote hq]
  | literal p => simp [hline, h.cons_quote hq]
  | escaped p => simp [h.cons_quote hq]
  | _ => simp [h.nil]

/-- **The literals of a line are edited each on its own.** -/
theorem litFrom_eq {m : Mode} {l : Text} (hm : m.isProper = true) (hl : '\n' ∉ l) :
    litFrom m (g l) = (g (litFrom m l).1, (litFrom m l).2.map g) := by
  -- The induction goes from quote to quote.
  induction hn : l.length using Nat.strongRecOn generalizing m l with
  | ind n ih =>
    subst hn
    have hkeep {x : Text} (hx : '\n' ∉ x) : '\n' ∉ g x := mt ((h.recast x).mem_iff rfl).1 hx
    rcases quoted_or_unquoted l with hx | ⟨x, q, y, rfl, hq, hx⟩
    · have hbefore := litFrom_unquoted hm hx hl []
      have hafter := litFrom_unquoted hm (h.unquoted hx) (hkeep hl) []
      rw [List.append_nil] at hbefore hafter
      rw [hafter, hbefore]
      by_cases hin : m.inLiteral = true
      · simp [hin]
      · simp [hin, h.nil]
    · obtain ⟨hlx, hly⟩ : '\n' ∉ x ∧ '\n' ∉ y := by
        simp only [List.mem_append, List.mem_cons, not_or] at hl
        exact ⟨hl.1, hl.2.2⟩
      have hmx := isProper_finish hm x (some q)
      have hrest := ih y.length (by simp only [List.length_append, List.length_cons]; omega) (isProper_step hmx q none)
        hly rfl
      have hquoted := h.litFrom_cons_quote hq hrest
      have hhead : ∀ c ∈ (litFrom (finish m x (some q)) (q :: y)).1.head?, isQuote c = true := by
        intro c hc
        rwa [head_litFrom hc]
      rw [h.cut x y hq, litFrom_unquoted hm (h.unquoted hx) (hkeep hlx), litFrom_unquoted hm hx hlx, List.head?_cons,
        List.head?_cons, (h.recast x).finish_eq hm, hquoted]
      by_cases hin : m.inLiteral = true
      · simp [hin, h.append_quoted x hhead]
      · simp [hin, h.nil]

theorem literalWise : LiteralWise g where
  line {l} hl := mt ((h.recast l).mem_iff rfl).1 hl
  finish {_ l} hm _ := (h.recast l).finish_eq hm none
  litFrom hm hl := h.litFrom_eq hm hl

end Recasts

end JavaMend.Java
