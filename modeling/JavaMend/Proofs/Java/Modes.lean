import JavaMend.Java.Segments

/-!
# `Proofs.Java.Modes` — reading the code of a text line by line

`segments` cuts a text from its start. A statement about one line needs to know instead in what the line begins: in
code, in a comment, or in a literal that a backslash has carried over the line end. Reading goes character by
character with a mode, `exit` says what the next line begins in, and `codeOnly_lines` says that this reading and the
segments see the same code.

## Contents
- **Code on its own.** `mask`, `codeOnly`.
- **Modes.** `Mode`, `step`, `showFrom`, `exit`.
- **Lexemes.** `showFrom_lexeme?`; `codeOnly_eq`.
- **Lines.** `showFrom_append_line`, `showLines`, `exits`; `codeOnly_lines`.
- **Plain lines.** `quiet`; `showFrom_of_quiet`, `exit_of_quiet`.
- **Blank lines.** `Mode.opensLine`; `exit_of_blank`, `exit_exit_nil`.
-/

namespace JavaMend.Java

open JavaMend Text

/-! ## Code on its own -/

/-- What stands for a character of a segment when only code is shown: a quote in a literal, as code itself holds none,
    and a space in a comment. Line ends stay. -/
def mask : SegmentKind → Char → Char
  | .code,    c => c
  | .literal, c => if c = '\n' then '\n' else '"'
  | _,        c => if c = '\n' then '\n' else ' '

/-- The text with its literals and comments masked. -/
def codeOnly (t : Text) : Text := (segments t).flatMap fun s => s.text.map (mask s.kind)

/-! ## Modes -/

/-- What a position of a text lies in. -/
inductive Mode where
  | code
  | line
  /-- Between the characters of the mark that opens a block comment. -/
  | blockOpens
  | block
  /-- Between the characters of the mark that closes it. -/
  | blockCloses
  | literal (quote : Char)
  /-- Behind a backslash in a literal. -/
  | escaped (quote : Char)
deriving DecidableEq, Repr

/-- What a character shows, and the mode behind it. The next character tells marks of two characters. -/
def step (m : Mode) (c : Char) (next : Option Char) : Char × Mode :=
  match m with
  | .code =>
    if c = '/' ∧ next = some '/' then (' ', .line)
    else if c = '/' ∧ next = some '*' then (' ', .blockOpens)
    else if c = '"' ∨ c = '\'' then ('"', .literal c)
    else (c, .code)
  | .line        => (mask .lineComment c, if c = '\n' then .code else .line)
  | .blockOpens  => (mask .blockComment c, .block)
  | .block       => (mask .blockComment c, if c = '*' ∧ next = some '/' then .blockCloses else .block)
  | .blockCloses => (mask .blockComment c, .code)
  | .literal q   =>
    (mask .literal c, if c = '\\' then .escaped q else if c = '\n' ∨ c = q then .code else .literal q)
  | .escaped q   => (mask .literal c, .literal q)

/-- The code of a text that is read from a mode on. -/
def showFrom : Mode → Text → Text
  | _, []     => []
  | m, c :: t => (step m c t.head?).1 :: showFrom (step m c t.head?).2 t

/-- What the line after a line begins in. -/
def exit : Mode → Text → Mode
  | m, []     => (step m '\n' none).2
  | m, c :: t => exit (step m c t.head?).2 t

theorem showFrom_cons (m : Mode) (c : Char) (t : Text) :
    showFrom m (c :: t) = (step m c t.head?).1 :: showFrom (step m c t.head?).2 t := rfl

theorem exit_cons (m : Mode) (c : Char) (t : Text) : exit m (c :: t) = exit (step m c t.head?).2 t := rfl

/-- A line end shows, whatever follows. -/
theorem step_newline (m : Mode) (next : Option Char) : step m '\n' next = ('\n', exit m []) := by
  cases m <;> simp [step, exit, mask]

/-- A line end is as good as the end of the text. -/
theorem step_before_newline (m : Mode) (c : Char) : step m c (some '\n') = step m c none := by
  cases m <;> simp [step]

theorem step_fst (m : Mode) (c : Char) (next : Option Char) :
    (step m c next).1 = c ∨ (step m c next).1 = ' ' ∨ (step m c next).1 = '"' := by
  cases m with
  | code =>
    simp only [step]
    split
    · simp
    · split
      · simp
      · split <;> simp
  | _ =>
    simp only [step, mask]
    split <;> simp_all

/-! ## Lexemes -/

/-- A block comment goes on at a character with which its closing mark does not begin. -/
theorem step_block {c : Char} {t : Text} (h : ∀ u, c = '*' → t = '/' :: u → False) :
    step .block c t.head? = (mask .blockComment c, .block) := by
  have hopen : ¬(c = '*' ∧ t.head? = some '/') := by
    rintro ⟨hc, ht⟩
    obtain ⟨u, rfl⟩ := List.head?_eq_some_iff.1 ht
    exact h u hc rfl
  rw [step, if_neg hopen]

theorem showFrom_line (t : Text) :
    showFrom .line t = (lineEnd t).1.map (mask .lineComment) ++ showFrom .code (lineEnd t).2 := by
  induction t with
  | nil => rfl
  | cons c t ih =>
    by_cases h : c = '\n'
    · simp [h, lineEnd, showFrom_cons, step, mask]
    · simp only [lineEnd] at ih
      simp [h, lineEnd, showFrom_cons, step, ih]

theorem showFrom_block (t : Text) :
    showFrom .block t = (blockEnd t).1.map (mask .blockComment) ++ showFrom .code (blockEnd t).2 := by
  fun_induction blockEnd t with
  | case1 => rfl
  | case2 t => rfl
  | case3 c t hne ih => rw [showFrom_cons, step_block hne, ih, List.map_cons, List.cons_append]

/-- The last cases of the functions that read a literal: the character is no backslash. -/
theorem ne_backslash_of_not {c : Char} {t : Text} (hend : c = '\\' → t = [] → False)
    (hmore : ∀ d t', c = '\\' → t = d :: t' → False) : c ≠ '\\' := by
  intro hc
  cases t with
  | nil => exact hend hc rfl
  | cons d t => exact hmore d t hc rfl

theorem showFrom_literal (q : Char) (t : Text) :
    showFrom (.literal q) t = (literalEnd q t).1.map (mask .literal) ++ showFrom .code (literalEnd q t).2 := by
  fun_induction literalEnd q t with
  | case1 => rfl
  | case2 => rfl
  | case3 c t ih => simp [showFrom_cons, step, ih]
  | case4 t => simp [showFrom_cons, step, mask]
  | case5 t h1 h2 hn =>
    have hb := ne_backslash_of_not h1 h2
    simp [showFrom_cons, step, hb]
  | case6 c t h1 h2 hn hc ih =>
    have hb := ne_backslash_of_not h1 h2
    simp [showFrom_cons, step, hb, hn, hc, ih]

/-- **A lexeme is masked**, and code goes on after it. -/
theorem showFrom_lexeme? {t rest : Text} {s : Segment} (h : lexeme? t = some (s, rest)) :
    showFrom .code t = s.text.map (mask s.kind) ++ showFrom .code rest := by
  obtain ⟨u, rfl, rfl, rfl⟩ | ⟨u, rfl, rfl, rfl⟩ | ⟨q, u, hq, rfl, rfl, rfl⟩ := lexeme?_eq_some h
  · simp [showFrom_cons, step, showFrom_line, mask]
  · simp [showFrom_cons, step, showFrom_block, mask]
  · rcases hq with rfl | rfl <;> simp [showFrom_cons, step, showFrom_literal, mask]

theorem lexeme?_eq_none_iff {c : Char} {t : Text} :
    lexeme? (c :: t) = none ↔
      (c = '/' → t.head? ≠ some '/' ∧ t.head? ≠ some '*') ∧ c ≠ '"' ∧ c ≠ '\'' := by
  unfold lexeme?
  split
  · rename_i heq
    simp only [List.cons.injEq] at heq
    simp [heq.1, heq.2]
  · rename_i heq
    simp only [List.cons.injEq] at heq
    simp [heq.1, heq.2]
  · rename_i heq
    simp only [List.cons.injEq] at heq
    simp [heq.1]
  · rename_i heq
    simp only [List.cons.injEq] at heq
    simp [heq.1]
  · rename_i h1 h2 h3 h4
    refine ⟨fun _ => ⟨fun hc => ?_, fun hc => h3 t (by rw [hc]), fun hc => h4 t (by rw [hc])⟩, fun _ => rfl⟩
    cases t with
    | nil => simp
    | cons d t =>
      simp only [List.head?_cons, ne_eq, Option.some.injEq]
      exact ⟨fun hd => h1 t (by rw [hc, hd]), fun hd => h2 t (by rw [hc, hd])⟩

theorem step_code_of_none {c : Char} {t : Text} (h : lexeme? (c :: t) = none) : step .code c t.head? = (c, .code) := by
  obtain ⟨hslash, hq, ha⟩ := lexeme?_eq_none_iff.1 h
  have hline : ¬(c = '/' ∧ t.head? = some '/') := fun h => (hslash h.1).1 h.2
  have hblock : ¬(c = '/' ∧ t.head? = some '*') := fun h => (hslash h.1).2 h.2
  simp only [step, if_neg hline, if_neg hblock, hq, ha, or_self, if_false]

/-- **Reading from the start sees the code of the segments.** -/
theorem codeOnly_eq (t : Text) : codeOnly t = showFrom .code t := by
  unfold codeOnly
  fun_induction segments t with
  | case1 => rfl
  | case2 c t s rest h ih => rw [List.flatMap_cons, ih, showFrom_lexeme? h]
  | case3 c t h ih =>
    rw [showFrom_cons, step_code_of_none h, ← ih]
    unfold consCode
    split
    · rename_i heq
      simp [heq, mask]
    · simp [mask]

/-! ## Lines -/

/-- **A line is read on its own**, and the rest from the mode at its end. -/
theorem showFrom_append_line (m : Mode) (l t : Text) :
    showFrom m (l ++ '\n' :: t) = showFrom m l ++ '\n' :: showFrom (exit m l) t := by
  induction l generalizing m with
  | nil => rw [List.nil_append, showFrom_cons, step_newline]; rfl
  | cons c l ih =>
    have hhead : step m c (l ++ '\n' :: t).head? = step m c l.head? := by
      cases l with
      | nil => exact step_before_newline m c
      | cons d l => rfl
    rw [List.cons_append, showFrom_cons, hhead, ih, showFrom_cons, exit_cons, List.cons_append]

/-- The code of lines that are read from a mode on. -/
def showLines : Mode → List Text → List Text
  | _, []      => []
  | m, l :: ls => showFrom m l :: showLines (exit m l) ls

/-- What begins after lines. -/
def exits (m : Mode) (ls : List Text) : Mode := ls.foldl exit m

@[simp] theorem exits_nil (m : Mode) : exits m [] = m := rfl

@[simp] theorem exits_cons (m : Mode) (l : Text) (ls : List Text) : exits m (l :: ls) = exits (exit m l) ls := rfl

theorem exits_append (m : Mode) (ls ks : List Text) : exits m (ls ++ ks) = exits (exits m ls) ks :=
  List.foldl_append

/-- What shows was there or masks something. -/
theorem mem_showFrom {m : Mode} {l : Text} {c : Char} (h : c ∈ showFrom m l) : c ∈ l ∨ c = ' ' ∨ c = '"' := by
  induction l generalizing m with
  | nil => cases h
  | cons d l ih =>
    rw [showFrom_cons] at h
    rcases List.mem_cons.1 h with hc | h
    · rcases step_fst m d l.head? with hd | hd | hd
      · exact .inl (by rw [hc, hd]; exact List.mem_cons_self)
      · exact .inr (.inl (hc.trans hd))
      · exact .inr (.inr (hc.trans hd))
    · exact (ih h).imp_left (List.mem_cons_of_mem d)

theorem newline_not_mem_showFrom {m : Mode} {l : Text} (h : '\n' ∉ l) : '\n' ∉ showFrom m l := by
  intro hmem
  rcases mem_showFrom hmem with hl | hspace | hquote
  · exact h hl
  · exact absurd hspace (by decide)
  · exact absurd hquote (by decide)

theorem showFrom_joinWith {m : Mode} (ls : List Text) :
    showFrom m (joinWith ['\n'] ls) = joinWith ['\n'] (showLines m ls) := by
  induction ls generalizing m with
  | nil => rfl
  | cons l ls ih =>
    cases ls with
    | nil => rfl
    | cons k ks =>
      rw [joinWith, List.append_assoc, List.singleton_append, showFrom_append_line, ih]
      simp [showLines, joinWith]

theorem newline_not_mem_showLines {m : Mode} {ls : List Text} (h : ∀ l ∈ ls, '\n' ∉ l) :
    ∀ l ∈ showLines m ls, '\n' ∉ l := by
  induction ls generalizing m with
  | nil => simp [showLines]
  | cons k ks ih =>
    intro l hl
    rcases List.mem_cons.1 hl with rfl | hl
    · exact newline_not_mem_showFrom (h k List.mem_cons_self)
    · exact ih (fun x hx => h x (List.mem_cons_of_mem k hx)) l hl

theorem newline_not_mem_splitOn {t l : Text} (h : l ∈ splitOn '\n' t) : '\n' ∉ l :=
  fun hl => (mem_splitOn h hl).2 rfl

/-- **The lines of the code are the code of the lines.** -/
theorem codeOnly_lines (t : Text) : splitOn '\n' (codeOnly t) = showLines .code (splitOn '\n' t) := by
  have hlines : ∀ l ∈ splitOn '\n' t, '\n' ∉ l := fun l => newline_not_mem_splitOn
  have hne : showLines .code (splitOn '\n' t) ≠ [] := by
    obtain ⟨l, ls, hl⟩ := List.exists_cons_of_ne_nil (splitOn_ne_nil '\n' t)
    simp [hl, showLines]
  have hjoin : showFrom .code (joinWith ['\n'] (splitOn '\n' t)) = joinWith ['\n'] (showLines .code (splitOn '\n' t)) :=
    showFrom_joinWith _
  rw [joinWith_splitOn] at hjoin
  rw [codeOnly_eq, hjoin, splitOn_joinWith hne (newline_not_mem_showLines hlines)]

/-! ## Plain lines -/

/-- Neither a literal nor a comment opens in the line. -/
def quiet : Text → Bool
  | []     => true
  | c :: t => (lexeme? (c :: t)).isNone && quiet t

theorem quiet_cons {c : Char} {t : Text} : quiet (c :: t) = true ↔ lexeme? (c :: t) = none ∧ quiet t = true := by
  rw [quiet, Bool.and_eq_true, Option.isNone_iff_eq_none]

theorem showFrom_of_quiet {l : Text} (h : quiet l = true) : showFrom .code l = l := by
  induction l with
  | nil => rfl
  | cons c l ih =>
    rw [quiet_cons] at h
    rw [showFrom_cons, step_code_of_none h.1, ih h.2]

theorem exit_of_quiet {l : Text} (h : quiet l = true) : exit .code l = .code := by
  induction l with
  | nil => rfl
  | cons c l ih =>
    rw [quiet_cons] at h
    rw [exit_cons, step_code_of_none h.1, ih h.2]

/-! ## Blank lines -/

theorem lexeme?_of_blank {c : Char} (h : isBlank c = true) (t : Text) : lexeme? (c :: t) = none := by
  refine lexeme?_eq_none_iff.2 ⟨?_, ?_, ?_⟩
  · rintro rfl
    exact absurd h (by decide)
  · rintro rfl
    exact absurd h (by decide)
  · rintro rfl
    exact absurd h (by decide)

/-- A line can begin in the mode. -/
def Mode.opensLine : Mode → Bool
  | .code | .block | .literal _ => true
  | _                           => false

theorem opensLine_exit (m : Mode) (l : Text) : (exit m l).opensLine = true := by
  induction l generalizing m with
  | nil => cases m <;> rfl
  | cons c l ih => exact ih _

theorem opensLine_exits {m : Mode} (hm : m.opensLine = true) (ls : List Text) : (exits m ls).opensLine = true := by
  induction ls generalizing m with
  | nil => exact hm
  | cons l ls ih => exact ih (opensLine_exit m l)

/-- Reading a white space character where a line can begin leads where a line end would, or nowhere. -/
theorem exit_step_blank {m : Mode} {c : Char} (hm : m.opensLine = true) (hc : isBlank c = true) (next : Option Char) :
    (step m c next).2.opensLine = true ∧ exit (step m c next).2 [] = exit m [] := by
  have hslash : c ≠ '/' := by
    rintro rfl
    exact absurd hc (by decide)
  have hstar : c ≠ '*' := by
    rintro rfl
    exact absurd hc (by decide)
  have hbackslash : c ≠ '\\' := by
    rintro rfl
    exact absurd hc (by decide)
  have hquote : c ≠ '"' := by
    rintro rfl
    exact absurd hc (by decide)
  have hapostrophe : c ≠ '\'' := by
    rintro rfl
    exact absurd hc (by decide)
  cases m with
  | code => simp [step, hslash, hquote, hapostrophe, Mode.opensLine]
  | block => simp [step, hstar, Mode.opensLine]
  | literal q =>
    simp only [step, if_neg hbackslash]
    split
    · exact ⟨rfl, rfl⟩
    · exact ⟨rfl, rfl⟩
  | _ => cases hm

/-- **A blank line is left as an empty one is.** -/
theorem exit_of_blank {m : Mode} {l : Text} (hm : m.opensLine = true) (h : isBlankLine l = true) :
    exit m l = exit m [] := by
  induction l generalizing m with
  | nil => rfl
  | cons c l ih =>
    simp only [isBlankLine, List.all_cons, Bool.and_eq_true] at h
    obtain ⟨hopens, hexit⟩ := exit_step_blank hm h.1 l.head?
    rw [exit_cons, ih hopens h.2, hexit]

/-- After an empty line another one changes nothing. -/
theorem exit_exit_nil {m : Mode} (hm : m.opensLine = true) : exit (exit m []) [] = exit m [] := by
  cases m with
  | code => rfl
  | block => rfl
  | literal q => rfl
  | _ => cases hm

end JavaMend.Java
