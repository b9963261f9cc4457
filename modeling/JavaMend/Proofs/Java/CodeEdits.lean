import JavaMend.Proofs.Java.Parts
import JavaMend.Proofs.Java.Recast

/-!
# `Proofs.Java.CodeEdits` — edits at places in code

Some edits of code find places in it and write something else there, and neither what they find nor what they write can
open or close a literal or a comment. Read with a mode, the edited text goes on as the old one does (`CodeEdited`): it has
the same literals (`literals_mapCode`), and if the edit leaves every place in code alone, it is the same text
(`mapCode_of_inCode`).

## Contents
- **Code.** `staysCode`; `step_staysCode`, `litFrom_staysCode`.
- **Edits.** `EditsCode`, `CodeEdited`; `CodeEdited.of_keep`, `CodeEdited.newline`, `CodeEdited.step_eq`.
- **The result of an edit.** `codeEdited_leave`, `codeEdited_lexeme`, `codeEdited_mapCode`.
- **Literals.** `CodeEdited.litFrom_eq`, `literals_mapCode`.
- **Places in code.** `InCode`; `InCode.mono`, `inCode_append`, `InCode.codeEdited`, `mapCode_of_inCode`.
-/

namespace JavaMend.Java

open JavaMend Text

/-! ## Code -/

/-- Code goes on behind the character, whatever comes next. -/
def staysCode (c : Char) : Bool := c ∉ ['/', '*', '"', '\'']

/-- A character that opens a literal or a comment, or can. -/
def canOpen (c : Char) : Bool := c == '/' || isQuote c

theorem step_staysCode {c : Char} (h : staysCode c = true) (next : Option Char) : step .code c next = (c, .code) := by
  simp only [staysCode, List.mem_cons, List.not_mem_nil, or_false, decide_eq_true_eq, not_or] at h
  simp [step, h.1, h.2.2.1, h.2.2.2]

theorem ne_mark_of_staysCode {c : Char} (h : staysCode c = true) : c ≠ '/' ∧ c ≠ '*' := by
  simp only [staysCode, List.mem_cons, List.not_mem_nil, or_false, decide_eq_true_eq, not_or] at h
  exact ⟨h.1, h.2.1⟩

theorem canOpen_of_lexeme? {c : Char} {t : Text} (h : lexeme? (c :: t) ≠ none) : canOpen c = true := by
  rw [Ne, lexeme?_eq_none_iff] at h
  by_contra hc
  simp only [canOpen, Bool.or_eq_true, beq_iff_eq, isQuote_iff, not_or] at hc
  exact h ⟨fun hslash => absurd hslash hc.1, hc.2⟩

/-- Code in which nothing can open has no literal. -/
theorem litFrom_staysCode {u : Text} (hu : ∀ c ∈ u, staysCode c = true) (t : Text) :
    litFrom .code (u ++ t) = litFrom .code t := by
  induction u with
  | nil => rfl
  | cons c u ih =>
    obtain ⟨hc, hu⟩ := List.forall_mem_cons.1 hu
    have hquote : ¬(c = '"' ∨ c = '\'') := by
      simp only [staysCode, List.mem_cons, List.not_mem_nil, or_false, decide_eq_true_eq, not_or] at hc
      exact not_or.2 hc.2.2
    rw [List.cons_append, litFrom_code_cons, step_staysCode hc, if_neg hquote, ih hu]
    exact Prod.ext (litFrom_fst_of_not_inLiteral rfl t).symm rfl

/-! ## Edits -/

section
variable {α : Type} {find : Finder α} {write : Text → α → Text}

/-- A finder whose hits lie in code and give way to code, of which there is some. -/
structure EditsCode (find : Finder α) (write : Text → α → Text) : Prop where
  faithful : find.Faithful
  /-- What comes before a hit is not looked at. -/
  behind (before : Option Char) (t : Text) : find before t = find none t
  /-- What opens a literal or a comment ends a hit. -/
  ahead {d : Char} (x y : Text) : canOpen d = true → find none (x ++ d :: y) = find none x
  hit {t m : Text} {a : α} : find none t = some (m, a) → m.head? ≠ some '\n' ∧ ∀ c ∈ m, staysCode c = true
  written {t m : Text} {a : α} : find none t = some (m, a) →
    write m a ≠ [] ∧ ∀ c ∈ write m a, staysCode c = true ∧ isBlank c = false

/-- **Reading a text from a mode on, every hit in its code gives way** to what is written for it, and everything else
    stays. -/
inductive CodeEdited (find : Finder α) (write : Text → α → Text) : Mode → Text → Text → Prop
  | nil {m : Mode} : CodeEdited find write m [] []
  | keep {m : Mode} (c : Char) {t s : Text} : (m = .code → find none (c :: t) = none) →
      CodeEdited find write (step m c t.head?).2 t s → CodeEdited find write m (c :: t) (c :: s)
  | hit {m : Text} {a : α} {t s : Text} : find none (m ++ t) = some (m, a) → CodeEdited find write .code t s →
      CodeEdited find write .code (m ++ t) (write m a ++ s)

namespace CodeEdited

variable {m : Mode} {t s : Text}

theorem eq_nil (he : EditsCode find write) (h : CodeEdited find write m [] s) : s = [] := by
  generalize ht : ([] : Text) = t at h
  cases h with
  | nil => rfl
  | keep => cases ht
  | hit hfind => exact absurd (List.append_eq_nil_iff.1 ht.symm).1 (he.faithful _ _ _ _ hfind).1

/-- A character with which nothing that is written opens was there before. -/
theorem of_keep (he : EditsCode find write) {c : Char}
    (hc : ∀ t m a, find none t = some (m, a) → (write m a).head? ≠ some c) (h : CodeEdited find write m t (c :: s)) :
    ∃ u, t = c :: u ∧ CodeEdited find write (step m c u.head?).2 u s := by
  generalize hs : c :: s = r at h
  cases h with
  | nil => cases hs
  | keep d _ h =>
    obtain ⟨rfl, rfl⟩ := List.cons.inj hs
    exact ⟨_, rfl, h⟩
  | @hit m a t s hfind h =>
    obtain ⟨d, w, hw⟩ := List.exists_cons_of_ne_nil (he.written hfind).1
    rw [hw, List.cons_append] at hs
    refine absurd ?_ (hc _ _ _ hfind)
    rw [hw, (List.cons.inj hs).1, List.head?_cons]

/-- A line end stays. -/
theorem newline (he : EditsCode find write) {u : Text} (h : CodeEdited find write m ('\n' :: u) s) :
    ∃ r, s = '\n' :: r ∧ CodeEdited find write (step m '\n' u.head?).2 u r := by
  generalize ht : '\n' :: u = t at h
  cases h with
  | nil => cases ht
  | keep c _ h =>
    obtain ⟨rfl, rfl⟩ := List.cons.inj ht
    exact ⟨_, rfl, h⟩
  | @hit m a t s hfind h =>
    obtain ⟨d, w, hw⟩ := List.exists_cons_of_ne_nil (he.faithful _ _ _ _ hfind).1
    subst hw
    refine absurd ?_ (he.hit hfind).1
    rw [List.head?_cons, (List.cons.inj ht).1]

/-- What comes next in the edited text is as good as what came next before. -/
theorem step_eq (he : EditsCode find write) (h : CodeEdited find write m t s) (k : Mode) (c : Char) :
    step k c s.head? = step k c t.head? := by
  have hne {u r : Text} (hu : u ≠ []) (hplain : ∀ c ∈ u, staysCode c = true) {d : Char} (hd : d = '/' ∨ d = '*') :
      (u ++ r).head? ≠ some d := by
    obtain ⟨b, u, rfl⟩ := List.exists_cons_of_ne_nil hu
    obtain ⟨hslash, hstar⟩ := ne_mark_of_staysCode (hplain b List.mem_cons_self)
    rintro hhead
    obtain rfl : b = d := Option.some.inj hhead
    exact hd.elim hslash hstar
  cases h with
  | nil => rfl
  | keep => rfl
  | hit hfind =>
    obtain ⟨hwrite, hplain⟩ := he.written hfind
    refine step_congr (fun d hd => iff_of_false ?_ ?_) k c
    · exact hne hwrite (fun c hc => (hplain c hc).1) hd
    · exact hne (he.faithful _ _ _ _ hfind).1 (he.hit hfind).2 hd

end CodeEdited

/-! ## The result of an edit -/

section
variable (he : EditsCode find write)

include he

/-- No hit begins where a literal or a comment can open. -/
theorem EditsCode.find_canOpen {c : Char} (hc : canOpen c = true) (t : Text) : find none (c :: t) = none := by
  have hahead := he.ahead [] t hc
  rw [List.nil_append] at hahead
  rw [hahead]
  refine Option.eq_none_iff_forall_ne_some.2 fun found hfound => ?_
  obtain ⟨hne, hpre⟩ := he.faithful none [] found.1 found.2 hfound
  exact hne (List.prefix_nil.1 hpre)

/-- A run of code is edited on its own. -/
theorem EditsCode.find_run {x y : Text} (hy : y = [] ∨ ∃ s rest, lexeme? y = some (s, rest)) :
    find none (x ++ y) = find none x := by
  rcases hy with rfl | ⟨s, rest, hs⟩
  · rw [List.append_nil]
  · cases y with
    | nil => cases hs
    | cons d y => exact he.ahead x y (canOpen_of_lexeme? (by rw [hs]; simp))

/-- **What is left of a lexeme stays**, and the text is edited behind it. -/
theorem codeEdited_leave {m : Mode} (hm : m ≠ .code) {t s : Text}
    (h : CodeEdited find write .code (t.drop (partsFrom m t).rest.length) s) :
    CodeEdited find write m t ((partsFrom m t).rest ++ s) := by
  induction t generalizing m with
  | nil =>
    obtain rfl := h.eq_nil he
    exact .nil
  | cons c t ih =>
    have hkeep : m = .code → find none (c :: t) = none := fun hcode => absurd hcode hm
    rw [partsFrom_cons] at h ⊢
    by_cases hnext : (step m c t.head?).2 = .code
    · by_cases hc : c = '\n'
      · subst hc
        rw [hnext, push_newline _ hm] at h ⊢
        obtain ⟨r, rfl, hr⟩ := h.newline he
        refine .keep '\n' hkeep ?_
        rw [hnext]
        exact hr
      · rw [hnext, push_closes _ _ hm hc] at h ⊢
        refine .keep c hkeep ?_
        rw [hnext]
        exact h
    · rw [push_within _ _ hm hnext] at h ⊢
      exact .keep c hkeep (ih hnext h)

theorem codeEdited_lexeme {t rest s : Text} {l : Segment} (hl : lexeme? t = some (l, rest))
    (h : CodeEdited find write .code rest s) : CodeEdited find write .code t (l.text ++ s) := by
  obtain ⟨hrest, hlater⟩ := partsFrom_lexeme? hl
  have hsource := source_lexeme? hl
  cases t with
  | nil => cases hl
  | cons c t =>
    have hopens : (step .code c t.head?).2 ≠ .code := by
      intro hcode
      rw [partsFrom_cons, hcode, push_code] at hrest
      cases hrest
    -- The lexeme is the character and what is left of the segment that it opens.
    have htext : l.text = c :: (partsFrom (step .code c t.head?).2 t).rest := by
      rw [partsFrom_cons, push_opens _ _ hopens, shown, List.filter_cons_of_pos (by simp)] at hlater
      rw [← (List.cons.inj hlater).1]
    have hbehind : t.drop (partsFrom (step .code c t.head?).2 t).rest.length = rest := by
      rw [htext, List.cons_append, List.cons.injEq] at hsource
      have hsplit := hsource.2
      generalize (partsFrom (step .code c t.head?).2 t).rest = r at hsplit
      rw [← hsplit, List.drop_left]
    rw [htext]
    refine .keep c (fun _ => he.find_canOpen (canOpen_of_lexeme? (by rw [hl]; simp)) t) ?_
    refine codeEdited_leave he hopens ?_
    rwa [hbehind]

theorem codeEdited_run {x y s : Text} {before : Option Char} (hcode : CodeBefore x y)
    (hy : y = [] ∨ ∃ s rest, lexeme? y = some (s, rest)) (h : CodeEdited find write .code y s) :
    CodeEdited find write .code (x ++ y) (edited find write before x ++ s) := by
  induction before, x using pieces_induction he.faithful with
  | nil before => simpa [edited, pieces] using h
  | plain before c x hnone ih =>
    rw [he.behind, ← he.find_run hy] at hnone
    rw [edited_cons_none (by rwa [he.behind, ← he.find_run hy]), List.cons_append]
    refine .keep c (fun _ => hnone) ?_
    rw [step_code_of_none hcode.1]
    exact ih hcode.2
  | hit before m a x hfind ih =>
    rw [edited_hit he.faithful hfind, List.append_assoc, List.append_assoc]
    rw [he.behind, ← he.find_run hy, List.append_assoc] at hfind
    exact .hit hfind (ih (codeBefore_append.1 hcode).2)

/-- **An edit of the code of a text**, read from code on. -/
theorem codeEdited_mapCode (t : Text) : CodeEdited find write .code t (mapCode (substitute find write) t) := by
  induction t using segments_induction with
  | nil => simpa [mapCode, segments] using CodeEdited.nil
  | run x y hne hcode hy hsegments ih =>
    have hmap : mapCode (substitute find write) (x ++ y) =
        edited find write none x ++ mapCode (substitute find write) y := by
      simp [mapCode, hsegments, substitute_eq_edited]
    rw [hmap]
    exact codeEdited_run he hcode hy ih
  | lexeme t l rest hl hsegments ih =>
    have hmap : mapCode (substitute find write) t = l.text ++ mapCode (substitute find write) rest := by
      simp [mapCode, hsegments, (parted_lexeme? hl).1]
    rw [hmap]
    exact codeEdited_lexeme he hl ih

/-! ## Literals -/

theorem CodeEdited.litFrom_eq {m : Mode} {t s : Text} (h : CodeEdited find write m t s) : litFrom m s = litFrom m t := by
  induction h with
  | nil => rfl
  | keep c _ h ih => rw [litFrom, litFrom, h.step_eq he, ih]
  | hit hfind _ ih =>
    rw [litFrom_staysCode (he.hit hfind).2, litFrom_staysCode fun c hc => ((he.written hfind).2 c hc).1, ih]

/-- **An edit of code changes no literal.** -/
theorem literals_mapCode (t : Text) : literals (mapCode (substitute find write) t) = literals t := by
  rw [literals_eq, literals_eq, (codeEdited_mapCode he t).litFrom_eq he]

end

end

/-! ## Places in code -/

/-- What can be said of a text from each place in its code on. -/
def InCode (N : Text → Prop) : Mode → Text → Prop
  | _, []     => True
  | m, c :: t => (m = .code → N (c :: t)) ∧ InCode N (step m c t.head?).2 t

section
variable {N N' : Text → Prop} {m : Mode} {t : Text}

theorem InCode.mono (hN : ∀ u, InCode N .code u → u ≠ [] → N' u) (h : InCode N m t) : InCode N' m t := by
  induction t generalizing m with
  | nil => trivial
  | cons c t ih =>
    refine ⟨fun hm => ?_, ih h.2⟩
    subst hm
    exact hN _ h (by simp)

/-- Code in which nothing can open goes before what is said of the rest. -/
theorem inCode_append {u : Text} (hu : ∀ c ∈ u, staysCode c = true ∧ ∀ t, N (c :: t)) (h : InCode N .code t) :
    InCode N .code (u ++ t) := by
  induction u with
  | nil => exact h
  | cons c u ih =>
    obtain ⟨⟨hc, hN⟩, hu⟩ := List.forall_mem_cons.1 hu
    refine ⟨fun _ => hN (u ++ t), ?_⟩
    rw [step_staysCode hc]
    exact ih hu

/-- Code behind which code goes on is passed over. -/
theorem InCode.of_append {u : Text} (hu : ∀ c ∈ u, staysCode c = true) (h : InCode N .code (u ++ t)) :
    InCode N .code t := by
  induction u with
  | nil => exact h
  | cons c u ih =>
    obtain ⟨hc, hu⟩ := List.forall_mem_cons.1 hu
    have hrest := h.2
    rw [step_staysCode hc] at hrest
    exact ih hu hrest

end

section
variable {α : Type} {find : Finder α} {write : Text → α → Text} (he : EditsCode find write)

include he

theorem CodeEdited.eq_of_inCode {m : Mode} {t s : Text} (h : CodeEdited find write m t s)
    (ht : InCode (fun u => ∀ m a, find none u = some (m, a) → write m a = m) m t) : s = t := by
  induction h with
  | nil => rfl
  | keep c _ _ ih => rw [ih ht.2]
  | @hit m a t s hfind _ ih =>
    have hplain := (he.hit hfind).2
    have hsame : write m a = m := by
      obtain ⟨c, m, rfl⟩ := List.exists_cons_of_ne_nil (he.faithful _ _ _ _ hfind).1
      exact ht.1 rfl _ _ hfind
    rw [hsame, ih (ht.of_append hplain)]

/-- **What is said of places in code goes on to hold** if the edit keeps it and it holds wherever something was written. -/
theorem InCode.codeEdited {N : Text → Prop} (hkeep : ∀ t s, CodeEdited find write .code t s → N t → N s)
    (hwritten : ∀ t m a, find none t = some (m, a) → ∀ c ∈ write m a, ∀ t, N (c :: t)) {m : Mode} {t s : Text}
    (h : CodeEdited find write m t s) (ht : InCode N m t) : InCode N m s := by
  induction h with
  | nil => trivial
  | @keep m c t s hnone h ih =>
    have hstep := h.step_eq he m c
    refine ⟨?_, hstep ▸ ih ht.2⟩
    rintro rfl
    exact hkeep _ _ (.keep c hnone h) (ht.1 rfl)
  | @hit m a t s hfind _ ih =>
    refine inCode_append (fun c hc => ⟨((he.written hfind).2 c hc).1, hwritten _ _ _ hfind c hc⟩) (ih ?_)
    exact ht.of_append (he.hit hfind).2

/-- **An edit that leaves every place in code alone** leaves the text alone. -/
theorem mapCode_of_inCode {t : Text}
    (ht : InCode (fun u => ∀ m a, find none u = some (m, a) → write m a = m) .code t) :
    mapCode (substitute find write) t = t := (codeEdited_mapCode he t).eq_of_inCode he ht

end

end JavaMend.Java
