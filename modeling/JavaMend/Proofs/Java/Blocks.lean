import JavaMend.Proofs.Java.Layouts

/-!
# `Proofs.Java.Blocks` — an import block read back

A target is written with single spaces between its words. If neither a literal nor a comment opens in it, the line
that is written for it declares it, so a block that stands in code declares its targets and leaves the rest in code.

## Contents
- **Quiet texts.** `quiet_append`, `quiet_append_cons`.
- **Words.** `words_append_blank`, `words_joinWith`, `words_trim`.
- **Lines.** `Spaced`; `target?_importLine`, `quiet_importLine`, `target?_spec`.
- **Blocks.** `importsFrom_importLines`.
-/

namespace JavaMend.Java

open JavaMend Text

/-! ## Quiet texts -/

/-- Nothing opens with a character and the end of the text that did not open before. -/
theorem lexeme?_take {c : Char} {a b : Text} (h : lexeme? (c :: (a ++ b)) = none) : lexeme? (c :: a) = none := by
  rw [lexeme?_eq_none_iff] at h ⊢
  cases a with
  | nil => exact ⟨fun _ => by simp, h.2⟩
  | cons d a => exact h

theorem quiet_append {a b : Text} (h : quiet (a ++ b) = true) : quiet a = true ∧ quiet b = true := by
  induction a with
  | nil => exact ⟨rfl, h⟩
  | cons c a ih =>
    rw [List.cons_append, quiet_cons] at h
    exact ⟨quiet_cons.2 ⟨lexeme?_take h.1, (ih h.2).1⟩, (ih h.2).2⟩

/-- A character that continues no opening mark keeps two quiet texts apart. -/
theorem quiet_append_cons {a b : Text} {c : Char} (hslash : c ≠ '/') (hstar : c ≠ '*') (ha : quiet a = true)
    (hb : quiet (c :: b) = true) : quiet (a ++ c :: b) = true := by
  induction a with
  | nil => exact hb
  | cons d a ih =>
    rw [quiet_cons] at ha
    rw [List.cons_append, quiet_cons]
    refine ⟨?_, ih ha.2⟩
    have hd := ha.1
    rw [lexeme?_eq_none_iff] at hd ⊢
    cases a with
    | nil => exact ⟨fun _ => by simp [hslash, hstar], hd.2⟩
    | cons e a => exact hd

/-- A text without slashes and quotes is quiet. -/
theorem quiet_of_forall {t : Text} (h : ∀ c ∈ t, c ≠ '/' ∧ c ≠ '"' ∧ c ≠ '\'') : quiet t = true := by
  induction t with
  | nil => rfl
  | cons c t ih =>
    obtain ⟨hc, ht⟩ := List.forall_mem_cons.1 h
    exact quiet_cons.2 ⟨lexeme?_eq_none_iff.2 ⟨fun hslash => absurd hslash hc.1, hc.2⟩, ih ht⟩

/-! ## Words -/

/-- How a character is read. -/
theorem words_cons_eq (c : Char) (t : Text) :
    words (c :: t) =
      if isBlank c then words t
      else match t with
        | []     => [[c]]
        | d :: _ =>
          if isBlank d then [c] :: words t
          else match words t with
            | []           => [[c]]
            | word :: rest => (c :: word) :: rest :=
  words.eq_def (c :: t)

theorem words_cons_blank {c : Char} (hc : isBlank c = true) (t : Text) : words (c :: t) = words t := by
  rw [words_cons_eq, if_pos hc]

/-- A text that starts with a word starts with its first one. -/
theorem words_cons {c : Char} (hc : isBlank c = false) (t : Text) :
    ∃ w ws, words (c :: t) = (c :: w) :: ws ∧ w <+: t := by
  induction t generalizing c with
  | nil => exact ⟨[], [], by simp [words_cons_eq, hc], List.prefix_rfl⟩
  | cons d t ih =>
    cases hd : isBlank d with
    | true => exact ⟨[], words (d :: t), by rw [words_cons_eq]; simp [hc, hd], List.nil_prefix⟩
    | false =>
      obtain ⟨w, ws, hw, hpre⟩ := ih hd
      exact ⟨d :: w, ws, by rw [words_cons_eq]; simp [hc, hd, hw], List.cons_prefix_cons.2 ⟨rfl, hpre⟩⟩

/-- **Words part at white space.** -/
theorem words_append_blank {c : Char} (hc : isBlank c = true) (x y : Text) : words (x ++ c :: y) = words x ++ words y := by
  induction x with
  | nil => exact words_cons_blank hc y
  | cons a x ih =>
    cases ha : isBlank a with
    | true => rw [List.cons_append, words_cons_blank ha, words_cons_blank ha, ih]
    | false =>
      cases x with
      | nil => simp [words_cons_eq, ha, hc]
      | cons d x =>
        cases hd : isBlank d with
        | true =>
          rw [List.cons_append, words_cons_eq, words_cons_eq a]
          simpa [ha, hd] using ih
        | false =>
          obtain ⟨w, ws, hw, -⟩ := words_cons hd x
          rw [hw] at ih
          rw [List.cons_append] at ih ⊢
          rw [List.cons_append, words_cons_eq, words_cons_eq a]
          simp [ha, hd, ih, hw]

theorem words_of_forall_not_blank {w : Text} (hne : w ≠ []) (h : ∀ c ∈ w, isBlank c = false) : words w = [w] := by
  induction w with
  | nil => exact absurd rfl hne
  | cons c w ih =>
    obtain ⟨hc, hw⟩ := List.forall_mem_cons.1 h
    cases w with
    | nil => simp [words_cons_eq, hc]
    | cons d w =>
      rw [words_cons_eq, ih (by simp) hw]
      simp [hc, hw d List.mem_cons_self]

/-- A word is a nonempty text without white space that stands in the text. -/
theorem mem_words {t w : Text} (h : w ∈ words t) : w ≠ [] ∧ (∀ c ∈ w, isBlank c = false) ∧ w <:+: t := by
  induction t generalizing w with
  | nil => cases h
  | cons c t ih =>
    cases hc : isBlank c with
    | true =>
      rw [words_cons_blank hc] at h
      obtain ⟨hne, hblank, hin⟩ := ih h
      exact ⟨hne, hblank, hin.trans (List.suffix_cons c t).isInfix⟩
    | false =>
      cases t with
      | nil =>
        simp only [words_cons_eq, hc, Bool.false_eq_true, if_false, List.mem_singleton] at h
        subst h
        exact ⟨by simp, by simpa using hc, List.infix_rfl⟩
      | cons d t =>
        cases hd : isBlank d with
        | true =>
          rw [words_cons_eq] at h
          simp only [hc, hd, Bool.false_eq_true, if_false, if_true, List.mem_cons] at h
          rcases h with rfl | h
          · exact ⟨by simp, by simpa using hc, (List.prefix_append [c] (d :: t)).isInfix⟩
          · obtain ⟨hne, hblank, hin⟩ := ih h
            exact ⟨hne, hblank, hin.trans (List.suffix_cons c _).isInfix⟩
        | false =>
          obtain ⟨v, vs, hv, hpre⟩ := words_cons hd t
          have hwords : words (c :: d :: t) = (c :: d :: v) :: vs := by
            rw [words_cons_eq]
            simp [hc, hd, hv]
          rw [hwords] at h
          rcases List.mem_cons.1 h with rfl | h
          · obtain ⟨-, hblank, -⟩ := ih (hv ▸ List.mem_cons_self)
            exact ⟨by simp, List.forall_mem_cons.2 ⟨hc, hblank⟩,
              (List.cons_prefix_cons.2 ⟨rfl, List.cons_prefix_cons.2 ⟨rfl, hpre⟩⟩).isInfix⟩
          · obtain ⟨hne, hblank, hin⟩ := ih (hv ▸ List.mem_cons_of_mem _ h)
            exact ⟨hne, hblank, hin.trans (List.suffix_cons c _).isInfix⟩

/-- Words joined by spaces are the words of the text. -/
theorem words_joinWith {ws : List Text} (h : ∀ w ∈ ws, w ≠ [] ∧ ∀ c ∈ w, isBlank c = false) :
    words (joinWith [' '] ws) = ws := by
  induction ws with
  | nil => rfl
  | cons w ws ih =>
    have hw := h w List.mem_cons_self
    cases ws with
    | nil => exact words_of_forall_not_blank hw.1 hw.2
    | cons v vs =>
      rw [joinWith, List.append_assoc, List.singleton_append, words_append_blank isBlank_space,
        words_of_forall_not_blank hw.1 hw.2, ih fun u hu => h u (List.mem_cons_of_mem w hu)]
      rfl

theorem words_of_blanks {t : Text} (h : ∀ c ∈ t, isBlank c = true) : words t = [] := by
  induction t with
  | nil => rfl
  | cons c t ih =>
    obtain ⟨hc, ht⟩ := List.forall_mem_cons.1 h
    rw [words_cons_blank hc, ih ht]

/-- Trimming keeps the words. -/
theorem words_trim (t : Text) : words (trim t) = words t := by
  have hstart : words (trimStart t) = words t := by
    induction t with
    | nil => rfl
    | cons c t ih =>
      cases hc : isBlank c with
      | true => rwa [trimStart, List.dropWhile_cons_of_pos hc, words_cons_blank hc]
      | false => rw [trimStart, List.dropWhile_cons_of_neg (by simp [hc])]
  rw [← hstart, trim]
  generalize trimStart t = u
  have hsplit : u = trimEnd u ++ (u.reverse.takeWhile isBlank).reverse := by
    rw [trimEnd, ← List.reverse_append, List.takeWhile_append_dropWhile, List.reverse_reverse]
  have hblank : ∀ c ∈ (u.reverse.takeWhile isBlank).reverse, isBlank c = true := fun c hc =>
    List.all_eq_true.1 List.all_takeWhile c (List.mem_reverse.1 hc)
  conv => rhs; rw [hsplit]
  cases hend : (u.reverse.takeWhile isBlank).reverse with
  | nil => rw [List.append_nil]
  | cons c bs =>
    obtain ⟨hc, hbs⟩ := List.forall_mem_cons.1 (hend ▸ hblank)
    rw [words_append_blank hc, words_of_blanks hbs, List.append_nil]

theorem quiet_of_isInfix {w t : Text} (h : w <:+: t) (ht : quiet t = true) : quiet w = true := by
  obtain ⟨a, b, rfl⟩ := h
  exact (quiet_append (quiet_append ht).1).2

theorem quiet_joinWith {ws : List Text} (h : ∀ w ∈ ws, quiet w = true) : quiet (joinWith [' '] ws) = true := by
  induction ws with
  | nil => rfl
  | cons w ws ih =>
    obtain ⟨hw, hws⟩ := List.forall_mem_cons.1 h
    cases ws with
    | nil => exact hw
    | cons v vs =>
      rw [joinWith, List.append_assoc, List.singleton_append]
      exact quiet_append_cons (by decide) (by decide) hw (quiet_cons.2 ⟨lexeme?_of_blank isBlank_space _, ih hws⟩)

/-! ## Lines -/

/-- The text is written with single spaces between its words. -/
def Spaced (t : Text) : Prop := joinWith [' '] (words t) = t

theorem spaced_joinWith_words (t : Text) : Spaced (joinWith [' '] (words t)) := by
  rw [Spaced, words_joinWith fun w hw => ⟨(mem_words hw).1, (mem_words hw).2.1⟩]

theorem spaced_of_forall_not_blank {t : Text} (hne : t ≠ []) (h : ∀ c ∈ t, isBlank c = false) : Spaced t := by
  rw [Spaced, words_of_forall_not_blank hne h, joinWith]

theorem trim_importLine (target : Text) : trim (importLine target) = importLine target := by
  have hopens : importLine target = 'i' :: (text "mport " ++ target ++ [';']) := rfl
  have hstart : trimStart (importLine target) = importLine target := by
    rw [hopens, trimStart, List.dropWhile_cons_of_neg (by decide)]
  have hend : (importLine target).reverse = ';' :: (text "import " ++ target).reverse := List.reverse_append
  rw [trim, hstart, trimEnd, hend, List.dropWhile_cons_of_neg (by decide), ← hend, List.reverse_reverse]

/-- **An import line declares its target.** -/
theorem target?_importLine {target : Text} (h : Spaced target) : target? (importLine target) = some target := by
  have hprefix : dropPrefix? (text "import ") (importLine target) = some (target ++ [';']) :=
    dropPrefix?_eq_some.2 (List.append_assoc _ _ _)
  have hsuffix : dropSuffix? [';'] (target ++ [';']) = some target := dropSuffix?_eq_some.2 rfl
  have htarget : importTarget? (importLine target) = some (trim target) := by
    simp only [importTarget?, trim_importLine, hprefix, hsuffix, Option.bind_eq_bind, Option.bind_some, Option.pure_def]
  rw [target?, htarget, Option.map_some, words_trim, h]

theorem quiet_importLine {target : Text} (h : quiet target = true) : quiet (importLine target) = true := by
  have hword : quiet (text "import " ++ target) = true :=
    quiet_append_cons (a := text "import") (by decide) (by decide) (by decide)
      (quiet_cons.2 ⟨lexeme?_of_blank isBlank_space _, h⟩)
  exact quiet_append_cons (by decide) (by decide) hword (by decide)

theorem infix_of_trim (t : Text) : trim t <:+: t := by
  have hend : trim t <+: trimStart t := by
    rw [trim, trimEnd, ← List.reverse_suffix, List.reverse_reverse]
    exact List.dropWhile_suffix isBlank
  exact hend.isInfix.trans (List.dropWhile_suffix isBlank).isInfix

/-- The target of a line is spaced, and quiet if the line is. -/
theorem target?_spec {l target : Text} (h : target? l = some target) :
    Spaced target ∧ (quiet l = true → quiet target = true) := by
  obtain ⟨name, hname, rfl⟩ := Option.map_eq_some_iff.1 h
  refine ⟨spaced_joinWith_words name, fun hl => quiet_joinWith fun w hw => ?_⟩
  simp only [importTarget?, Option.bind_eq_bind, Option.bind_eq_some_iff, Option.pure_def, Option.some.injEq] at hname
  obtain ⟨rest, hrest, found, hfound, rfl⟩ := hname
  have hline : found <:+: trim l := by
    rw [dropPrefix?_eq_some.1 hrest, dropSuffix?_eq_some.1 hfound]
    exact ⟨text "import ", [';'], List.append_assoc _ _ _⟩
  exact quiet_of_isInfix ((mem_words hw).2.2.trans ((infix_of_trim found).trans (hline.trans (infix_of_trim l)))) hl

/-! ## Blocks -/

/-- **A block in code declares its targets** and leaves code. -/
theorem importsFrom_importLines {targets : List Text} (h : ∀ target ∈ targets, Spaced target ∧ quiet target = true) :
    importsFrom .code (targets.map importLine) = targets ∧ exits .code (targets.map importLine) = .code := by
  induction targets with
  | nil => exact ⟨rfl, rfl⟩
  | cons target targets ih =>
    obtain ⟨⟨hspaced, hquiet⟩, htargets⟩ := List.forall_mem_cons.1 h
    obtain ⟨himports, hexits⟩ := ih htargets
    have hline := quiet_importLine hquiet
    rw [List.map_cons, importsFrom_cons, exits_cons, showFrom_of_quiet hline, exit_of_quiet hline,
      target?_importLine hspaced, himports]
    exact ⟨rfl, hexits⟩

end JavaMend.Java
