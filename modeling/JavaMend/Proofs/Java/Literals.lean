import JavaMend.Proofs.Java.Modes
import JavaMend.Proofs.Lines

/-!
# `Proofs.Java.Literals` — the literals of a text, line by line

The literals of a text are the segments of their kind. Read with a mode, character by character, a text gives what is
left of the literal that it begins in, and the literals after that (`literals_eq`). Where every literal is closed on its
own line, each line can be read on its own (`literals_lines`).

## Contents
- **Literals.** `literals`, `finish`, `IsClosed`.
- **Reading.** `litFrom`; `litFrom_lexeme?`, `literals_eq`.
- **Lines.** `Apart`, `litFrom_append_of_settled`; `exists_open_literal`; `litLines`, `SettledLines`; `litFrom_unlines`,
  `settledLines_of_closed`, `literals_lines`.
-/

namespace JavaMend.Java

open JavaMend Text

/-! ## Literals -/

/-- The literals of a text, in order. -/
def literals (t : Text) : List Text := ((segments t).filter fun s => s.kind = .literal).map (·.text)

/-- The mode behind a text that a character follows, or nothing. -/
def finish : Mode → Text → Option Char → Mode
  | m, [],     _    => m
  | m, c :: t, next => finish (step m c (t.head?.or next)).2 t next

/-- A literal is closed on its own line: reading it ends with its quote. -/
def IsClosed (l : Text) : Prop := '\n' ∉ l ∧ finish .code l none = .code

instance (l : Text) : Decidable (IsClosed l) := inferInstanceAs (Decidable (_ ∧ _))

/-- A position lies in a literal. -/
def Mode.inLiteral : Mode → Bool
  | .literal _ | .escaped _ => true
  | _                       => false

@[simp] theorem finish_nil (m : Mode) (next : Option Char) : finish m [] next = m := rfl

theorem finish_cons (m : Mode) (c : Char) (t : Text) (next : Option Char) :
    finish m (c :: t) next = finish (step m c (t.head?.or next)).2 t next := rfl

/-- The next line begins in what a line end leads to. -/
theorem exit_eq (m : Mode) (l : Text) : exit m l = exit (finish m l none) [] := by
  induction l generalizing m with
  | nil => rfl
  | cons c l ih =>
    rw [exit_cons, finish_cons, Option.or_none, ih]

/-! ## Reading -/

/-- The rest of the literal that a text begins in, and the literals after it. -/
def litFrom : Mode → Text → Text × List Text
  | _, []     => ([], [])
  | m, c :: t =>
    let (rest, later) := litFrom (step m c t.head?).2 t
    match m with
    | .code      => ([], if c = '"' ∨ c = '\'' then (c :: rest) :: later else later)
    | .literal _ => (if c = '\n' then [] else c :: rest, later)
    | .escaped _ => (c :: rest, later)
    | _          => ([], later)

@[simp] theorem litFrom_nil (m : Mode) : litFrom m [] = ([], []) := rfl

theorem litFrom_code_cons (c : Char) (t : Text) : litFrom .code (c :: t) =
    ([], if c = '"' ∨ c = '\'' then
      (c :: (litFrom (step .code c t.head?).2 t).1) :: (litFrom (step .code c t.head?).2 t).2
      else (litFrom (step .code c t.head?).2 t).2) := rfl

theorem litFrom_literal_cons (q c : Char) (t : Text) : litFrom (.literal q) (c :: t) =
    (if c = '\n' then [] else c :: (litFrom (step (.literal q) c t.head?).2 t).1,
      (litFrom (step (.literal q) c t.head?).2 t).2) := rfl

theorem litFrom_escaped_cons (q c : Char) (t : Text) : litFrom (.escaped q) (c :: t) =
    (c :: (litFrom (.literal q) t).1, (litFrom (.literal q) t).2) := rfl

/-- Where no literal is open, none is left. -/
theorem litFrom_fst_of_not_inLiteral {m : Mode} (hm : m.inLiteral = false) (t : Text) : (litFrom m t).1 = [] := by
  cases t with
  | nil => rfl
  | cons c t => cases m <;> first | rfl | cases hm

/-- In a comment no literal opens. -/
theorem litFrom_comment_cons {m : Mode} (hm : m.inLiteral = false) (hcode : m ≠ .code) (c : Char) (t : Text) :
    litFrom m (c :: t) = ([], (litFrom (step m c t.head?).2 t).2) := by
  cases m <;> first | rfl | exact absurd rfl hcode | cases hm

theorem litFrom_line (t : Text) : litFrom .line t = litFrom .code (lineEnd t).2 := by
  refine Prod.ext (by rw [litFrom_fst_of_not_inLiteral rfl, litFrom_fst_of_not_inLiteral rfl]) ?_
  induction t with
  | nil => rfl
  | cons c t ih =>
    rw [litFrom_comment_cons rfl (by simp)]
    by_cases h : c = '\n'
    · simp [h, lineEnd, step, litFrom_code_cons]
    · simp only [lineEnd] at ih
      simp [h, lineEnd, step, ih]

theorem litFrom_block (t : Text) : litFrom .block t = litFrom .code (blockEnd t).2 := by
  refine Prod.ext (by rw [litFrom_fst_of_not_inLiteral rfl, litFrom_fst_of_not_inLiteral rfl]) ?_
  fun_induction blockEnd t with
  | case1 => rfl
  | case2 t => rfl
  | case3 c t hne ih => rw [litFrom_comment_cons rfl (by simp), step_block hne, ih]

theorem litFrom_literal (q : Char) (t : Text) :
    litFrom (.literal q) t = ((literalEnd q t).1, (litFrom .code (literalEnd q t).2).2) := by
  fun_induction literalEnd q t with
  | case1 => rfl
  | case2 => rfl
  | case3 c t ih =>
    rw [litFrom_literal_cons]
    simp [step, litFrom_escaped_cons, ih]
  | case4 t =>
    rw [litFrom_literal_cons]
    simp [step, litFrom_code_cons]
  | case5 t h1 h2 hn =>
    have hb := ne_backslash_of_not h1 h2
    rw [litFrom_literal_cons]
    simp [step, hb, hn, litFrom_fst_of_not_inLiteral (m := .code) rfl]
  | case6 c t h1 h2 hn hc ih =>
    have hb := ne_backslash_of_not h1 h2
    rw [litFrom_literal_cons]
    simp [step, hb, hn, hc, ih]

/-- **A lexeme gives its text if it is a literal**, and reading goes on in code after it. -/
theorem litFrom_lexeme? {t rest : Text} {s : Segment} (h : lexeme? t = some (s, rest)) :
    (litFrom .code t).2 = (if s.kind = .literal then [s.text] else []) ++ (litFrom .code rest).2 := by
  obtain ⟨u, rfl, rfl, rfl⟩ | ⟨u, rfl, rfl, rfl⟩ | ⟨q, u, hq, rfl, rfl, rfl⟩ := lexeme?_eq_some h
  · simp [litFrom_code_cons, step, litFrom_line, lineEnd]
  · have hopens : litFrom .blockOpens ('*' :: u) = ([], (litFrom .block u).2) := rfl
    simp [litFrom_code_cons, step, hopens, litFrom_block]
  · rcases hq with rfl | rfl <;> simp [litFrom_code_cons, step, litFrom_literal]

theorem literals_of_lexeme? {c : Char} {t rest : Text} {s : Segment} (h : lexeme? (c :: t) = some (s, rest)) :
    literals (c :: t) = (if s.kind = .literal then [s.text] else []) ++ literals rest := by
  unfold literals
  rw [segments]
  split
  · rename_i s' rest' h'
    cases h.symm.trans h'
    by_cases hkind : s.kind = .literal <;> simp [hkind]
  · rename_i h'
    rw [h] at h'
    cases h'

theorem literals_of_code {c : Char} {t : Text} (h : lexeme? (c :: t) = none) : literals (c :: t) = literals t := by
  unfold literals
  rw [segments]
  split
  · rename_i s' rest' h'
    rw [h] at h'
    cases h'
  · unfold consCode
    split
    · rename_i heq
      simp [heq]
    · simp

/-- **Reading from the start gives the literals of the segments.** -/
theorem literals_eq (t : Text) : literals t = (litFrom .code t).2 := by
  fun_induction segments t with
  | case1 => simp [literals, segments]
  | case2 c t s rest h ih => rw [literals_of_lexeme? h, litFrom_lexeme? h, ih]
  | case3 c t h ih =>
    obtain ⟨-, hq, ha⟩ := lexeme?_eq_none_iff.1 h
    rw [literals_of_code h, ih, litFrom_code_cons, step_code_of_none h]
    simp [hq, ha]

/-! ## Lines -/

/-- What comes next is of no account unless it is a slash or a star. -/
theorem step_congr {next next' : Option Char} (h : ∀ d, d = '/' ∨ d = '*' → (next = some d ↔ next' = some d)) (m : Mode)
    (c : Char) : step m c next = step m c next' := by
  have hslash := h '/' (.inl rfl)
  have hstar := h '*' (.inr rfl)
  cases m <;> simp [step, hslash, hstar]

/-- What comes after a text makes no mark with its last character. -/
def Apart (r : Text) : Prop := r.head? ≠ some '/' ∧ r.head? ≠ some '*'

/-- What comes after a line: nothing, or a line end. -/
def EndsLine (r : Text) : Prop := r.head?.all (· == '\n') = true

theorem EndsLine.apart {r : Text} (h : EndsLine r) : Apart r := by
  cases r with
  | nil => exact ⟨nofun, nofun⟩
  | cons d r =>
    obtain rfl : d = '\n' := by simpa [EndsLine] using h
    exact ⟨by simp, by simp⟩

theorem step_append_of_apart {r : Text} (h : Apart r) (m : Mode) (c : Char) (l : Text) :
    step m c (l ++ r).head? = step m c l.head? := by
  cases l with
  | cons d l => rfl
  | nil =>
    refine step_congr (fun d hd => iff_of_false ?_ (by simp)) m c
    rcases hd with rfl | rfl
    · exact h.1
    · exact h.2

/-- What comes after a text does not show at its end. -/
theorem finish_append_of_apart {r : Text} (h : Apart r) (m : Mode) (l : Text) :
    finish m (l ++ r) none = finish (finish m l none) r none := by
  induction l generalizing m with
  | nil => rfl
  | cons c l ih =>
    rw [List.cons_append, finish_cons, finish_cons, Option.or_none, Option.or_none, step_append_of_apart h, ih]

/-- **A line that ends outside literals is read on its own.** -/
theorem litFrom_append_of_settled {m : Mode} {l r : Text} (hr : Apart r)
    (h : (finish m l none).inLiteral = false) :
    litFrom m (l ++ r) = ((litFrom m l).1, (litFrom m l).2 ++ (litFrom (finish m l none) r).2) := by
  induction l generalizing m with
  | nil => exact Prod.ext (litFrom_fst_of_not_inLiteral h r) rfl
  | cons c l ih =>
    rw [finish_cons, Option.or_none] at h ⊢
    have hrest := ih h
    rw [List.cons_append, litFrom, litFrom, step_append_of_apart hr, hrest]
    cases m with
    | code =>
      by_cases hc : c = '"' ∨ c = '\'' <;> simp [hc]
    | literal q => by_cases hc : c = '\n' <;> simp [hc]
    | _ => rfl

/-- The literal that is open in a mode, as far as it goes, is closed on its line. -/
def ClosedFrom (m : Mode) (rest : Text) : Prop := '\n' ∉ rest ∧ finish m rest none = .code

theorem closedFrom_cons {m : Mode} (hm : m.inLiteral = true) {c : Char} (hc : c ≠ '\n') (next : Option Char)
    (rest : Text) : ClosedFrom m (c :: rest) ↔ ClosedFrom (step m c next).2 rest := by
  have hstep : step m c (rest.head?.or none) = step m c next := by cases m <;> first | rfl | cases hm
  unfold ClosedFrom
  rw [finish_cons, hstep, List.mem_cons, not_or]
  simp [Ne.symm hc]

theorem step_quote {c : Char} (hc : c = '"' ∨ c = '\'') (next : Option Char) :
    step .code c next = ('"', .literal c) := by
  rcases hc with rfl | rfl <;> simp [step]

/-- A literal opens in code, with its quote. -/
theorem step_inLiteral {m : Mode} {c : Char} {next : Option Char} (hm : m.inLiteral = false)
    (h : (step m c next).2.inLiteral = true) :
    m = .code ∧ (c = '"' ∨ c = '\'') ∧ step m c next = ('"', .literal c) := by
  cases m with
  | code =>
    by_cases hc : c = '"' ∨ c = '\''
    · exact ⟨rfl, hc, step_quote hc next⟩
    · simp only [step, if_neg hc] at h
      split at h
      · cases h
      · split at h <;> cases h
  | line =>
    simp only [step] at h
    split at h <;> cases h
  | block =>
    simp only [step] at h
    split at h <;> cases h
  | literal q => cases hm
  | escaped q => cases hm
  | _ => cases h

theorem mem_litFrom_cons {m : Mode} {c : Char} {t lit : Text} (h : lit ∈ (litFrom (step m c t.head?).2 t).2) :
    lit ∈ (litFrom m (c :: t)).2 := by
  cases m with
  | code =>
    rw [litFrom_code_cons]
    split
    · exact List.mem_cons_of_mem _ h
    · exact h
  | _ => exact h

/-- A literal that is open at the end of a line is not closed: it stops before the line end, or takes it along. -/
theorem not_closedFrom_of_endsLine {m : Mode} (hin : m.inLiteral = true) {r : Text} (hr : EndsLine r) :
    ¬ ClosedFrom m (litFrom m r).1 := by
  rintro ⟨hline, hcode⟩
  cases r with
  | nil =>
    cases m with
    | literal q => cases hcode
    | escaped q => cases hcode
    | _ => cases hin
  | cons d r =>
    obtain rfl : d = '\n' := by simpa [EndsLine] using hr
    cases m with
    | literal q => cases hcode
    | escaped q => exact hline List.mem_cons_self
    | _ => cases hin

/-- An open literal takes every character but a line end. -/
theorem litFrom_fst_cons {m : Mode} (hin : m.inLiteral = true) {c : Char} (hc : c ≠ '\n') (t : Text) :
    (litFrom m (c :: t)).1 = c :: (litFrom (step m c t.head?).2 t).1 := by
  cases m with
  | literal q => rw [litFrom_literal_cons, if_neg hc]
  | escaped q => rfl
  | _ => cases hin

/-- **A line that ends in a literal leaves a literal open**: the one in which it begins, or a later one. -/
theorem exists_open_literal {m : Mode} {l r : Text} (hr : EndsLine r) (hl : '\n' ∉ l)
    (h : (finish m l none).inLiteral = true) :
    (∃ lit ∈ (litFrom m (l ++ r)).2, ¬ IsClosed lit) ∨ m.inLiteral = true ∧ ¬ ClosedFrom m (litFrom m (l ++ r)).1 := by
  induction l generalizing m with
  | nil => exact .inr ⟨h, not_closedFrom_of_endsLine h hr⟩
  | cons c l ih =>
    obtain ⟨hc, hl⟩ := not_or.1 (mt List.mem_cons.2 hl)
    rw [finish_cons, Option.or_none, ← step_append_of_apart hr.apart] at h
    rcases ih hl h with ⟨lit, hmem, hopen⟩ | ⟨hin, hopen⟩
    · exact .inl ⟨lit, mem_litFrom_cons hmem, hopen⟩
    · by_cases hm : m.inLiteral = true
      · refine .inr ⟨hm, ?_⟩
        rwa [List.cons_append, litFrom_fst_cons hm (Ne.symm hc), closedFrom_cons hm (Ne.symm hc)]
      · -- The literal that stays open begins here: its text is the quote and what is left of it behind the quote.
        obtain ⟨rfl, hquote, hopens⟩ := step_inLiteral (Bool.eq_false_iff.2 hm) hin
        refine .inl ⟨c :: (litFrom (.literal c) (l ++ r)).1, ?_, fun hclosed => hopen ?_⟩
        · rw [List.cons_append, litFrom_code_cons, hopens, if_pos hquote]
          exact List.mem_cons_self
        · rw [hopens]
          refine ⟨fun hmem => hclosed.1 (List.mem_cons_of_mem c hmem), ?_⟩
          have hcode := hclosed.2
          rwa [finish_cons, step_quote hquote] at hcode

/-- The literals of lines that are read from a mode on, each line on its own. -/
def litLines : Mode → List Text → List Text
  | _, []      => []
  | m, l :: ls => (litFrom m l).2 ++ litLines (exit m l) ls

/-- Every line ends outside literals. -/
def SettledLines : Mode → List Text → Prop
  | _, []      => True
  | m, l :: ls => (finish m l none).inLiteral = false ∧ SettledLines (exit m l) ls

theorem exit_inLiteral {m : Mode} {l : Text} (h : (finish m l none).inLiteral = false) : (exit m l).inLiteral = false := by
  rw [exit_eq]
  cases hm : finish m l none with
  | literal q => rw [hm] at h; cases h
  | escaped q => rw [hm] at h; cases h
  | _ => rfl

/-- Joined lines are the first of them and what comes after it. -/
theorem unlines_cons (l : Text) (ls : List Text) (terminated : Bool) :
    ∃ r, unlines (l :: ls) terminated = l ++ r ∧ EndsLine r
      ∧ ∀ m : Mode, m.inLiteral = false → (litFrom m r).2 = (litFrom (exit m []) (unlines ls terminated)).2 := by
  have hbreak (m : Mode) (hm : m.inLiteral = false) (t : Text) : (litFrom m ('\n' :: t)).2 = (litFrom (exit m []) t).2 := by
    cases m with
    | code => simp [litFrom_code_cons, step, exit]
    | literal q => cases hm
    | escaped q => cases hm
    | _ => rw [litFrom_comment_cons hm (by simp), step_newline]
  cases ls with
  | nil =>
    cases terminated with
    | false => exact ⟨[], by simp [unlines, joinWith], rfl, fun m _ => by simp⟩
    | true => exact ⟨['\n'], by simp [unlines, joinWith], rfl, fun m hm => hbreak m hm []⟩
  | cons k ks =>
    exact ⟨'\n' :: unlines (k :: ks) terminated, by simp [unlines, joinWith], rfl, fun m hm => hbreak m hm _⟩

section
variable {m : Mode} {ls : List Text}

/-- **Where every line ends outside literals, the literals are those of the lines.** -/
theorem litFrom_unlines (h : SettledLines m ls) (terminated : Bool) :
    (litFrom m (unlines ls terminated)).2 = litLines m ls := by
  induction ls generalizing m with
  | nil => simp [litLines]
  | cons l ls ih =>
    obtain ⟨hl, hls⟩ := h
    obtain ⟨r, hr, hends, hrest⟩ := unlines_cons l ls terminated
    rw [hr, litFrom_append_of_settled hends.apart hl, hrest _ hl, ← exit_eq, ih hls]
    rfl

/-- **Where every literal is closed, every line ends outside literals.** -/
theorem settledLines_of_closed {terminated : Bool} (hm : m.inLiteral = false) (hlines : ∀ l ∈ ls, '\n' ∉ l)
    (h : ∀ lit ∈ (litFrom m (unlines ls terminated)).2, IsClosed lit) : SettledLines m ls := by
  induction ls generalizing m with
  | nil => trivial
  | cons l ls ih =>
    obtain ⟨hl, hlines⟩ := List.forall_mem_cons.1 hlines
    obtain ⟨r, hr, hends, hrest⟩ := unlines_cons l ls terminated
    rw [hr] at h
    have hsettled : (finish m l none).inLiteral = false := by
      refine Bool.eq_false_iff.2 fun hin => ?_
      rcases exists_open_literal hends hl hin with ⟨lit, hlit, hopen⟩ | ⟨hin, -⟩
      · exact hopen (h lit hlit)
      · rw [hm] at hin
        cases hin
    refine ⟨hsettled, ih (exit_inLiteral hsettled) hlines fun lit hlit => h lit ?_⟩
    rw [litFrom_append_of_settled hends.apart hsettled, hrest _ hsettled, ← exit_eq]
    exact List.mem_append_right _ hlit

end

/-- **The literals of a text are those of its lines**, if every literal is closed on its own line. -/
theorem literals_lines {t : Text} (hlf : '\r' ∉ t) (h : ∀ l ∈ literals t, IsClosed l) :
    SettledLines .code (lines t) ∧ literals t = litLines .code (lines t) := by
  have hlines : ∀ l ∈ lines t, '\n' ∉ l := fun l hl => (not_mem_lines hl).1
  rw [literals_eq, ← unlines_lines hlf] at h
  have hsettled := settledLines_of_closed rfl hlines h
  refine ⟨hsettled, ?_⟩
  rw [← litFrom_unlines hsettled (endsWithNewline t), unlines_lines hlf, literals_eq]

end JavaMend.Java
