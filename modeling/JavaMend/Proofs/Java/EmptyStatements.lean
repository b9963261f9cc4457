import JavaMend.Proofs.Java.ThinnedLines

/-!
# `Proofs.Java.EmptyStatements` — semicolons that are no statements

A semicolon behind another one is an empty statement only in code, and only outside parentheses: between the parentheses of
a `for` header it stands for a missing part. Dropping empty statements goes by lines and sees neither comments nor
parentheses; it only spares lines that open with `for`. So the semicolons it drops are empty statements exactly if each
line that loses some ends in code, outside parentheses (`dropsStatementsOnly_iff`).

## Contents
- **Places.** `openParens`, `EndsOutside`; `endsOutside_line`, `openParens_row`.
- **Losing empty statements.** `MayGo`, `LosesEmpty`; `losesEmpty_append`, `losesEmpty_line`, `LosesEmpty.of_line`.
- **One line.** `rowCount_cons_of_row`, `rowCount_cons_of_not_row`; `LosesEmpty.rowCount_eq`, `losesEmpty_dropEmpty_iff`.
- **All lines.** `LinesEndOutside`; `losesEmpty_lines_iff`, `dropsStatementsOnly_iff`.
-/

namespace JavaMend.Java

open JavaMend Text

/-! ## Places -/

/-- The parentheses that are open behind a character of code, if `d` are open before it. -/
def parenDepth (d : Nat) (c : Char) : Nat := if c = '(' then d + 1 else if c = ')' then d - 1 else d

/-- The parentheses that are open behind code, if `d` are open before it. -/
def openParens (d : Nat) (code : Text) : Nat := code.foldl parenDepth d

/-- Read from a mode on with open parentheses, a text ends in code, outside parentheses. -/
def EndsOutside (m : Mode) (d : Nat) (t : Text) : Prop := finish m t none = .code ∧ openParens d (showFrom m t) = 0

instance (m : Mode) (d : Nat) (t : Text) : Decidable (EndsOutside m d t) := inferInstanceAs (Decidable (_ ∧ _))

variable {m : Mode} {d : Nat}

theorem parenDepth_of_ne {c : Char} (h : c ≠ '(' ∧ c ≠ ')') (d : Nat) : parenDepth d c = d := by
  rw [parenDepth, if_neg h.1, if_neg h.2]

theorem openParens_append (u t : Text) : openParens d (u ++ t) = openParens (openParens d u) t := List.foldl_append

theorem endsOutside_cons (c : Char) (t : Text) :
    EndsOutside m d (c :: t) ↔ EndsOutside (step m c t.head?).2 (parenDepth d (step m c t.head?).1) t := by
  rw [EndsOutside, finish_cons, Option.or_none, showFrom_cons, openParens, List.foldl_cons, ← openParens, EndsOutside]

/-- A text that ends in code outside parentheses goes on so in the next line. -/
theorem endsOutside_line (l t : Text) :
    EndsOutside m d (l ++ '\n' :: t) ↔ EndsOutside (exit m l) (openParens d (showFrom m l)) t := by
  have hfinish : finish m (l ++ '\n' :: t) none = finish (exit m l) t none := by
    rw [finish_append_of_apart ⟨by simp, by simp⟩, finish_cons, step_newline, ← exit_eq]
  have hdepth : openParens d (showFrom m (l ++ '\n' :: t)) =
      openParens (openParens d (showFrom m l)) (showFrom (exit m l) t) := by
    rw [showFrom_append_line, openParens_append]
    rfl
  rw [EndsOutside, hfinish, hdepth, EndsOutside]

theorem plain_of_row {c : Char} (hc : isGap c = true ∨ c = ';') : staysCode c = true ∧ c ≠ '(' ∧ c ≠ ')' := by
  have hrow : c = ' ' ∨ c = '\t' ∨ c = ';' := by simpa [isGap, or_assoc] using hc
  rcases hrow with rfl | rfl | rfl <;> decide

/-- A row of gaps and semicolons leads nowhere. -/
theorem openParens_row {r : Text} (hr : ∀ c ∈ r, isGap c = true ∨ c = ';') : openParens d (showFrom .code r) = d := by
  induction r with
  | nil => rfl
  | cons c r ih =>
    obtain ⟨hc, hr⟩ := List.forall_mem_cons.1 hr
    rw [showFrom_cons, step_staysCode (plain_of_row hc).1, openParens, List.foldl_cons, ← openParens,
      parenDepth_of_ne (plain_of_row hc).2, ih hr]

theorem finish_row {r : Text} (hr : ∀ c ∈ r, isGap c = true ∨ c = ';') : finish .code r none = .code := by
  have hrun := finish_behind (m := .code) rfl (fun c hc => isInert_of_row (hr c hc)) [] none
  rwa [List.append_nil] at hrun

/-- What is shown of a text behind which no mark goes on. -/
theorem showFrom_append_of_apart {u : Text} (hu : Apart u) (p : Text) :
    showFrom m (p ++ u) = showFrom m p ++ showFrom (finish m p none) u := by
  induction p generalizing m with
  | nil => rfl
  | cons c p ih =>
    rw [List.cons_append, showFrom_cons, showFrom_cons, step_append_of_apart hu, ih, finish_cons, Option.or_none,
      List.cons_append]

/-! ## Losing empty statements -/

/-- What may go from a place: a gap, or a semicolon in code outside parentheses. -/
def MayGo (m : Mode) (d : Nat) (c : Char) : Prop := isGap c = true ∨ c = ';' ∧ m = .code ∧ d = 0

/-- **Read from a mode on with open parentheses, a text loses empty statements** and gaps, and nothing else. -/
inductive LosesEmpty : Mode → Nat → Text → Text → Prop
  | nil {m : Mode} {d : Nat} : LosesEmpty m d [] []
  | keep {m : Mode} {d : Nat} (c : Char) {t s : Text} :
      LosesEmpty (step m c t.head?).2 (parenDepth d (step m c t.head?).1) t s → LosesEmpty m d (c :: t) (c :: s)
  | drop {m : Mode} {d : Nat} (c : Char) {t s : Text} : MayGo m d c →
      LosesEmpty (step m c t.head?).2 (parenDepth d (step m c t.head?).1) t s → LosesEmpty m d (c :: t) s

theorem losesEmpty_refl (t : Text) : LosesEmpty m d t t := by
  induction t generalizing m d with
  | nil => exact .nil
  | cons c t ih => exact .keep c ih

/-- Nothing goes from what comes first. -/
theorem losesEmpty_append {p u w : Text} (hu : Apart u)
    (h : LosesEmpty (finish m p none) (openParens d (showFrom m p)) u w) : LosesEmpty m d (p ++ u) (p ++ w) := by
  induction p generalizing m d with
  | nil => exact h
  | cons c p ih =>
    rw [List.cons_append, List.cons_append]
    refine .keep c ?_
    rw [step_append_of_apart hu]
    rw [finish_cons, Option.or_none, showFrom_cons, openParens, List.foldl_cons, ← openParens] at h
    exact ih h

/-- A line loses what it loses on its own, and the rest goes on behind it. -/
theorem losesEmpty_line {l k t s : Text} (hl : LosesEmpty m d l k)
    (h : LosesEmpty (exit m l) (openParens d (showFrom m l)) t s) : LosesEmpty m d (l ++ '\n' :: t) (k ++ '\n' :: s) := by
  have hapart : Apart ('\n' :: t) := ⟨by simp, by simp⟩
  induction hl with
  | nil =>
    refine .keep '\n' ?_
    rw [step_newline]
    exact h
  | keep c _ ih =>
    rw [List.cons_append, List.cons_append]
    refine .keep c ?_
    rw [step_append_of_apart hapart]
    exact ih h
  | drop c hgo _ ih =>
    rw [List.cons_append]
    refine .drop c hgo ?_
    rw [step_append_of_apart hapart]
    exact ih h

theorem LosesEmpty.of_line {l t v : Text} (h : LosesEmpty m d (l ++ '\n' :: t) v) (hl : '\n' ∉ l) :
    ∃ k s, v = k ++ '\n' :: s ∧ '\n' ∉ k ∧ LosesEmpty m d l k
      ∧ LosesEmpty (exit m l) (openParens d (showFrom m l)) t s := by
  have hapart : Apart ('\n' :: t) := ⟨by simp, by simp⟩
  induction l generalizing m d v with
  | nil =>
    cases h with
    | @keep _ _ _ _ s h =>
      rw [step_newline] at h
      exact ⟨[], s, rfl, by simp, .nil, h⟩
    | drop _ hgo =>
      rcases hgo with hgap | ⟨hsemi, -⟩
      · exact absurd hgap (by decide)
      · exact absurd hsemi (by decide)
  | cons c l ih =>
    obtain ⟨hc, hl⟩ := not_or.1 (mt List.mem_cons.2 hl)
    rw [List.cons_append] at h
    cases h with
    | keep _ h =>
      rw [step_append_of_apart hapart] at h
      obtain ⟨k, s, rfl, hk, hline, hrest⟩ := ih h hl
      exact ⟨c :: k, s, rfl, by simp [hc, hk], .keep c hline, hrest⟩
    | drop _ hgo h =>
      rw [step_append_of_apart hapart] at h
      obtain ⟨k, s, rfl, hk, hline, hrest⟩ := ih h hl
      exact ⟨k, s, rfl, hk, .drop c hgo hline, hrest⟩

/-! ## One line -/

theorem semicolonTail_of_row {u : Text} (hu : ∀ c ∈ u, isGap c = true ∨ c = ';') : semicolonTail u = u :=
  semicolonTail_append (x := []) (by simp) hu

/-- A semicolon in front of a row belongs to it. -/
theorem rowCount_cons_of_row {c : Char} {t : Text} (ht : ∀ e ∈ t, isGap e = true ∨ e = ';') :
    rowCount (c :: t) = rowCount t + if c = ';' then 1 else 0 := by
  have hcount : rowCount t = t.count ';' := by rw [rowCount, semicolonTail_of_row ht]
  by_cases hc : isGap c = true ∨ c = ';'
  · have hall : ∀ e ∈ c :: t, isGap e = true ∨ e = ';' := List.forall_mem_cons.2 ⟨hc, ht⟩
    rw [hcount, rowCount, semicolonTail_of_row hall, List.count_cons]
    simp only [beq_iff_eq]
  · have hnot : ∀ e ∈ [c].getLast?, isGap e = false ∧ e ≠ ';' := by simpa using hc
    rw [hcount, rowCount, ← List.singleton_append, semicolonTail_append hnot ht, if_neg fun h => hc (.inr h)]
    rfl

/-- What stands before the last row of a line makes no difference to it. -/
theorem rowCount_cons_of_not_row {c : Char} {t : Text} (ht : ¬ ∀ e ∈ t, isGap e = true ∨ e = ';') :
    rowCount (c :: t) = rowCount t := by
  have hsplit : t.rdropWhile (fun c => isGap c || c == ';') ++ semicolonTail t = t :=
    List.rdropWhile_append_rtakeWhile
  have hne : t.rdropWhile (fun c => isGap c || c == ';') ≠ [] := by
    intro hnil
    rw [List.rdropWhile_eq_nil_iff] at hnil
    exact ht fun e he => by simpa using hnil e he
  have hlast : ∀ e ∈ (c :: t.rdropWhile fun c => isGap c || c == ';').getLast?, isGap e = false ∧ e ≠ ';' := by
    intro e he
    rw [List.getLast?_cons_of_ne_nil hne] at he
    obtain ⟨hne, rfl⟩ := List.mem_getLast?_eq_getLast he
    have hnot := List.rdropWhile_last_not (fun c => isGap c || c == ';') t hne
    simpa using hnot
  have htail := semicolonTail_append hlast fun e (he : e ∈ semicolonTail t) => mem_semicolonTail he
  rw [List.cons_append, hsplit] at htail
  rw [rowCount, rowCount, htail]

theorem LosesEmpty.row_iff {t s : Text} (h : LosesEmpty m d t s) :
    (∀ e ∈ s, isGap e = true ∨ e = ';') ↔ ∀ e ∈ t, isGap e = true ∨ e = ';' := by
  induction h with
  | nil => exact Iff.rfl
  | keep c _ ih => rw [List.forall_mem_cons, List.forall_mem_cons, ih]
  | drop c hgo _ ih =>
    rw [List.forall_mem_cons, ih]
    exact (and_iff_right (hgo.imp_right And.left)).symm

/-- A line that does not end in code outside parentheses loses no semicolon of its row. -/
theorem LosesEmpty.rowCount_eq {t s : Text} (h : LosesEmpty m d t s) (hout : ¬ EndsOutside m d t) :
    rowCount s = rowCount t := by
  induction h with
  | nil => rfl
  | @keep _ _ c t s h ih =>
    rw [endsOutside_cons] at hout
    by_cases ht : ∀ e ∈ t, isGap e = true ∨ e = ';'
    · rw [rowCount_cons_of_row ht, rowCount_cons_of_row (h.row_iff.2 ht), ih hout]
    · rw [rowCount_cons_of_not_row ht, rowCount_cons_of_not_row (mt h.row_iff.1 ht), ih hout]
  | @drop _ _ c t s hgo _ ih =>
    have hrest := ih (by rwa [endsOutside_cons] at hout)
    by_cases ht : ∀ e ∈ t, isGap e = true ∨ e = ';'
    · rw [rowCount_cons_of_row ht, hrest, if_neg]
      · rfl
      · rintro rfl
        rcases hgo with hgap | ⟨-, rfl, rfl⟩
        · exact absurd hgap (by decide)
        · have hrow := List.forall_mem_cons.2 ⟨.inr rfl, ht⟩
          exact hout ⟨finish_row hrow, openParens_row hrow⟩
    · rw [rowCount_cons_of_not_row ht, hrest]

/-- In code outside parentheses a row can go. -/
theorem losesEmpty_row {r t s : Text} (hr : ∀ c ∈ r, isGap c = true ∨ c = ';') (h : LosesEmpty .code 0 t s) :
    LosesEmpty .code 0 (r ++ t) s := by
  induction r with
  | nil => exact h
  | cons c r ih =>
    obtain ⟨hc, hr⟩ := List.forall_mem_cons.1 hr
    rw [List.cons_append]
    refine .drop c (hc.imp_right fun hsemi => ⟨hsemi, rfl, rfl⟩) ?_
    rw [step_staysCode (plain_of_row hc).1, parenDepth_of_ne (plain_of_row hc).2]
    exact ih hr

/-- **Behind its first semicolon a row goes** where the line ends in code outside parentheses. -/
theorem losesEmpty_collapsed (hm : m.isProper = true) {l k : Text} (hlk : Collapsed l k) (h : EndsOutside m d l) :
    LosesEmpty m d l k := by
  cases hlk with
  | @mk x g r w _ _ hr hw =>
    have hrow : ∀ c ∈ (r ++ [';']) ++ w, isGap c = true ∨ c = ';' := by
      intro c hc
      simp only [List.mem_append, List.mem_singleton] at hc
      rcases hc with (hc | rfl) | hc
      · exact hr c hc
      · exact .inr rfl
      · exact .inl (hw c hc)
    have hinert : ∀ c ∈ (r ++ [';']) ++ w, isInert c = true := fun c hc => isInert_of_row (hrow c hc)
    have hl : x ++ (g ++ ';' :: (r ++ ';' :: w)) = (x ++ g ++ [';']) ++ ((r ++ [';']) ++ w) := by simp
    have hk : x ++ (g ++ ';' :: w) = (x ++ g ++ [';']) ++ w := by simp
    -- The row leads nowhere, so its first semicolon stands where the line ends.
    have hmode : finish m (x ++ g ++ [';']) none = (finish m (x ++ g) (some ';')).behind := by
      rw [finish_append, finish_cons, finish_nil]
      exact step_of_isInert (isProper_finish hm _ _) (by decide) _
    have hcode : finish m (x ++ g ++ [';']) none = .code := by
      have hends := h.1
      rw [hl, finish_append_of_apart (apart_of_isInert hinert), hmode, ← List.append_nil ((r ++ [';']) ++ w),
        finish_behind (isProper_finish hm _ _) hinert, finish_nil] at hends
      rw [hmode, hends]
    have hdepth : openParens d (showFrom m (x ++ g ++ [';'])) = 0 := by
      have hends := h.2
      rwa [hl, showFrom_append_of_apart (apart_of_isInert hinert), hcode, openParens_append, openParens_row hrow] at hends
    rw [hl, hk]
    refine losesEmpty_append (apart_of_isInert hinert) ?_
    rw [hcode, hdepth, List.append_assoc]
    refine losesEmpty_row hr (losesEmpty_row (by simp) (losesEmpty_refl w))

/-- **A line loses empty statements only** exactly if it loses nothing, or ends in code outside parentheses. -/
theorem losesEmpty_dropEmpty_iff (hm : m.isProper = true) (l : Text) :
    LosesEmpty m d l (dropEmpty l) ↔ (dropEmpty l ≠ l → EndsOutside m d l) := by
  have hcollapsed (hne : dropEmpty l ≠ l) : Collapsed l (dropEmpty l) := by
    unfold dropEmpty at hne ⊢
    split at hne
    · rw [if_pos ‹_›]
      refine collapsed_of_le (Nat.le_of_not_lt fun hlt => hne ?_)
      exact collapseSemicolons_of_lt hlt
    · exact absurd rfl hne
  constructor
  · intro h hne
    by_contra hout
    obtain ⟨htwo, hone⟩ := (hcollapsed hne).rowCount_eq
    rw [h.rowCount_eq hout] at hone
    omega
  · intro h
    by_cases hsame : dropEmpty l = l
    · rw [hsame]
      exact losesEmpty_refl l
    · exact losesEmpty_collapsed hm (hcollapsed hsame) (h hsame)

/-! ## All lines -/

/-- Each line that loses semicolons ends in code, outside parentheses. -/
def LinesEndOutside : Mode → Nat → List Text → Prop
  | _, _, []      => True
  | m, d, l :: ls => (dropEmpty l ≠ l → EndsOutside m d l) ∧ LinesEndOutside (exit m l) (openParens d (showFrom m l)) ls

theorem joinWith_line (l k : Text) (ks : List Text) :
    joinWith ['\n'] (l :: k :: ks) = l ++ '\n' :: joinWith ['\n'] (k :: ks) := by
  simp [joinWith]

theorem losesEmpty_lines_iff (hm : m.isProper = true) {ls : List Text} (hls : ∀ l ∈ ls, '\n' ∉ l) :
    LosesEmpty m d (joinWith ['\n'] ls) (joinWith ['\n'] (ls.map dropEmpty)) ↔ LinesEndOutside m d ls := by
  induction ls generalizing m d with
  | nil => exact iff_of_true .nil trivial
  | cons l ls ih =>
    obtain ⟨hl, hls⟩ := List.forall_mem_cons.1 hls
    rw [LinesEndOutside, ← losesEmpty_dropEmpty_iff hm]
    cases ls with
    | nil => exact (and_iff_left trivial).symm
    | cons k ks =>
      have hexit : (exit m l).isProper = true := exit_eq m l ▸ isProper_step (isProper_finish hm l none) '\n' none
      rw [← ih hexit hls, List.map_cons, List.map_cons, joinWith_line, joinWith_line, ← List.map_cons]
      constructor
      · intro h
        obtain ⟨k', s, hsplit, hk', hline, hrest⟩ := h.of_line hl
        have hdrop : '\n' ∉ dropEmpty l := fun hmem => hl (mem_dropEmpty hmem)
        have hlines := congrArg (splitOn '\n') hsplit
        rw [splitOn_append_sep hdrop, splitOn_append_sep hk', List.cons.injEq] at hlines
        obtain rfl := hlines.1
        obtain rfl := (List.cons.inj (List.append_cancel_left hsplit)).2
        exact ⟨hline, hrest⟩
      · rintro ⟨hline, hrest⟩
        exact losesEmpty_line hline hrest

theorem linesEndOutside_iff {ls : List Text} : LinesEndOutside m d ls ↔
    ∀ pre l post, ls = pre ++ l :: post → dropEmpty l ≠ l → EndsOutside m d (joinWith ['\n'] (pre ++ [l])) := by
  induction ls generalizing m d with
  | nil => exact iff_of_true trivial fun pre l post h => by simp at h
  | cons l ls ih =>
    have hbehind (pre : List Text) (k : Text) : EndsOutside m d (joinWith ['\n'] (l :: pre ++ [k])) ↔
        EndsOutside (exit m l) (openParens d (showFrom m l)) (joinWith ['\n'] (pre ++ [k])) := by
      obtain ⟨j, js, hj⟩ := List.exists_cons_of_ne_nil (l := pre ++ [k]) (by simp)
      rw [List.cons_append, hj, joinWith_line, endsOutside_line]
    rw [LinesEndOutside, ih]
    constructor
    · rintro ⟨hline, hrest⟩ pre k post hsplit hne
      cases pre with
      | nil =>
        obtain ⟨rfl, -⟩ := List.cons.inj hsplit
        exact hline hne
      | cons j pre =>
        obtain ⟨rfl, hls⟩ := List.cons.inj hsplit
        exact (hbehind pre k).2 (hrest pre k post hls hne)
    · intro h
      refine ⟨h [] l ls rfl, fun pre k post hls hne => ?_⟩
      exact (hbehind pre k).1 (h (l :: pre) k post (by rw [hls, List.cons_append]) hne)

/-- Dropping empty statements drops empty statements only: what goes from the text are semicolons in its code, outside all
    parentheses, and gaps. -/
def DropsStatementsOnly (t : Text) : Prop := LosesEmpty .code 0 t (dropEmptyStatements t)

theorem dropsStatementsOnly_iff_lines (t : Text) : DropsStatementsOnly t ↔ LinesEndOutside .code 0 (splitOn '\n' t) := by
  have hlines := @losesEmpty_lines_iff .code 0 rfl (splitOn '\n' t) fun l => newline_not_mem_splitOn
  rw [joinWith_splitOn] at hlines
  exact hlines

/-- **Only empty statements are dropped** exactly if each line that loses some is one up to whose end the text is left in
    code, outside parentheses. -/
theorem dropsStatementsOnly_iff (t : Text) : DropsStatementsOnly t ↔
    ∀ pre l post, splitOn '\n' t = pre ++ l :: post → dropEmpty l ≠ l →
      finish .code (joinWith ['\n'] (pre ++ [l])) none = .code
        ∧ openParens 0 (codeOnly (joinWith ['\n'] (pre ++ [l]))) = 0 := by
  simp only [codeOnly_eq]
  rw [dropsStatementsOnly_iff_lines, linesEndOutside_iff]
  rfl

instance decidableLinesEndOutside (m : Mode) (d : Nat) (ls : List Text) : Decidable (LinesEndOutside m d ls) :=
  match ls with
  | []      => isTrue trivial
  | l :: ls =>
    have := decidableLinesEndOutside (exit m l) (openParens d (showFrom m l)) ls
    inferInstanceAs (Decidable (_ ∧ _))

/-- **A `for` header behind other code loses a semicolon**, if the line ends in it. -/
theorem not_dropsStatementsOnly_header : ¬ DropsStatementsOnly (text "x(); for (;;\n   ) \x7b\n   \x7d\n") := by
  rw [dropsStatementsOnly_iff_lines]
  decide +kernel

end JavaMend.Java
