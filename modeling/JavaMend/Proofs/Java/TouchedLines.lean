import JavaMend.Proofs.Java.RemovedComments
import JavaMend.Proofs.Java.TidiedLines

/-!
# `Proofs.Java.TouchedLines` — the lines that lost a comment

The lines of a text without its synthetic comments are marked where a comment went. What stays of the text is these
lines tidied (`stripSynthetic_eq`), and a marked line that goes stands in code, as the comment on it opened there.

## Contents
- **Marked lines.** `onLine`, `touchFirst`, `markedLines`; `map_fst_markedLines`.
- **Lines by number.** `flagged`; `flagged_eq_markedLines`, `keptLines_eq`.
- **Lines that go.** `finish_lexeme?_of_ne`, `exit_lexeme?`; `dropsCode_markedLines`.
- **Stripped texts.** `SameMarks`; `stripSynthetic_eq`, `exists_tidied_lines`, `alike_stripSynthetic`.
-/

namespace JavaMend.Java

open JavaMend Text

/-! ## Marked lines -/

/-- Put a character in front of the first line. A line end begins a line that is not marked. -/
def onLine (c : Char) (ls : List (Text × Bool)) : List (Text × Bool) :=
  if c = '\n' then ([], false) :: ls
  else match ls with
    | []                => [([c], false)]
    | (l, marked) :: ls => (c :: l, marked) :: ls

theorem onLine_newline (ls : List (Text × Bool)) : onLine '\n' ls = ([], false) :: ls := rfl

theorem onLine_cons {c : Char} (hc : c ≠ '\n') (l : Text) (marked : Bool) (ls : List (Text × Bool)) :
    onLine c ((l, marked) :: ls) = (c :: l, marked) :: ls := if_neg hc

/-- Mark the first line. -/
def touchFirst : List (Text × Bool) → List (Text × Bool)
  | []           => []
  | (l, _) :: ls => (l, true) :: ls

/-- The lines of segments without the synthetic comments. Those on which one stood are marked. -/
def markedLines : List Segment → List (Text × Bool)
  | []      => [([], false)]
  | s :: ss => if isSynthetic s then touchFirst (markedLines ss) else s.text.foldr onLine (markedLines ss)

theorem markedLines_synthetic {s : Segment} (hs : isSynthetic s = true) (ss : List Segment) :
    markedLines (s :: ss) = touchFirst (markedLines ss) := if_pos hs

theorem markedLines_plain {s : Segment} (hs : isSynthetic s = false) (ss : List Segment) :
    markedLines (s :: ss) = s.text.foldr onLine (markedLines ss) := if_neg (by simp [hs])

theorem map_fst_touchFirst (ls : List (Text × Bool)) : (touchFirst ls).map Prod.fst = ls.map Prod.fst := by
  cases ls <;> rfl

theorem map_fst_onLine {c : Char} {ls : List (Text × Bool)} {t : Text} (h : ls.map Prod.fst = splitOn '\n' t) :
    (onLine c ls).map Prod.fst = splitOn '\n' (c :: t) := by
  unfold onLine splitOn
  split
  · rw [List.map_cons, h]
  · rw [← h]
    cases ls <;> rfl

/-- **The marked lines are the lines of the text** without its synthetic comments. -/
theorem map_fst_markedLines (ss : List Segment) : (markedLines ss).map Prod.fst = splitOn '\n' (source (plain ss)) := by
  have hrun (x : Text) {ls : List (Text × Bool)} {t : Text} (h : ls.map Prod.fst = splitOn '\n' t) :
      (x.foldr onLine ls).map Prod.fst = splitOn '\n' (x ++ t) := by
    induction x with
    | nil => exact h
    | cons c x ih => exact map_fst_onLine ih
  induction ss with
  | nil => rfl
  | cons s ss ih =>
    cases hs : isSynthetic s with
    | true => rw [markedLines_synthetic hs, plain_cons_synthetic hs, map_fst_touchFirst, ih]
    | false =>
      rw [markedLines_plain hs, plain_cons_of_not hs]
      exact hrun s.text ih

/-! ## Lines by number -/

/-- Lines that are numbered from `n` on, those with a number of the list marked. -/
def flagged (touched : List Nat) : Nat → List Text → List (Text × Bool)
  | _, []      => []
  | n, l :: ls => (l, touched.contains n) :: flagged touched (n + 1) ls

theorem keptLines_eq (touched : List Nat) (ls : List Text) : keptLines touched ls = tidied (flagged touched 0 ls) := by
  unfold keptLines
  generalize 0 = n
  induction ls generalizing n with
  | nil => rfl
  | cons l ls ih =>
    rw [List.zipIdx_cons, List.filterMap_cons, flagged, tidied, ← ih]
    cases hmarked : touched.contains n with
    | false => simp only [hmarked, Bool.false_eq_true, if_false]
    | true => cases hblank : isBlankLine l <;> simp only [hmarked, hblank, Bool.false_eq_true, if_false, if_true]

theorem flagged_congr {touched touched' : List Nat} {n : Nat} (h : ∀ i, n ≤ i → touched.contains i = touched'.contains i)
    (ls : List Text) : flagged touched n ls = flagged touched' n ls := by
  induction ls generalizing n with
  | nil => rfl
  | cons l ls ih => rw [flagged, flagged, h n le_rfl, ih fun i hi => h i (by omega)]

/-- Line ends in front move the numbers, and no line with a smaller number is marked. -/
theorem flagged_append {touched : List Nat} (x t : Text) {n : Nat} (h : ∀ i ∈ touched, n + x.count '\n' ≤ i) :
    flagged touched n (splitOn '\n' (x ++ t)) = x.foldr onLine (flagged touched (n + x.count '\n') (splitOn '\n' t)) := by
  induction x generalizing n with
  | nil => rfl
  | cons c x ih =>
    by_cases hc : c = '\n'
    · subst hc
      rw [List.count_cons_self] at h
      have hrest := ih (n := n + 1) fun i hi => by have := h i hi; omega
      have hnone : touched.contains n = false := by
        refine Bool.eq_false_iff.2 fun hmem => ?_
        have := h n (List.contains_iff_mem.1 hmem)
        omega
      rw [List.cons_append, splitOn, if_pos rfl, flagged, hnone, hrest, List.count_cons_self, List.foldr_cons,
        onLine_newline, show n + 1 + x.count '\n' = n + (x.count '\n' + 1) by omega]
    · rw [List.count_cons_of_ne hc] at h ⊢
      have hrest := ih h
      obtain ⟨l, ls, hls⟩ := List.exists_cons_of_ne_nil (splitOn_ne_nil '\n' (x ++ t))
      rw [hls] at hrest
      rw [List.cons_append, splitOn, if_neg hc, hls, List.foldr_cons, ← hrest]
      exact (onLine_cons hc l _ _).symm

theorem le_of_mem_withoutSynthetic {n i : Nat} {ss : List Segment} (h : i ∈ (withoutSynthetic n ss).2) : n ≤ i := by
  induction ss generalizing n with
  | nil => cases h
  | cons s ss ih =>
    unfold withoutSynthetic at h
    split at h
    · rcases List.mem_cons.1 h with rfl | h
      · exact le_rfl
      · exact ih h
    · have := ih h
      omega

/-- **The numbers of the lines that lost a comment mark them.** -/
theorem flagged_eq_markedLines (n : Nat) (ss : List Segment) :
    flagged (withoutSynthetic n ss).2 n (splitOn '\n' (source (plain ss))) = markedLines ss := by
  induction ss generalizing n with
  | nil => rfl
  | cons s ss ih =>
    cases hs : isSynthetic s with
    | true =>
      have htouched : (withoutSynthetic n (s :: ss)).2 = n :: (withoutSynthetic n ss).2 := by simp [withoutSynthetic, hs]
      rw [markedLines_synthetic hs, plain_cons_synthetic hs, htouched, ← ih n]
      obtain ⟨l, ls, hls⟩ := List.exists_cons_of_ne_nil (splitOn_ne_nil '\n' (source (plain ss)))
      have hrest : flagged (n :: (withoutSynthetic n ss).2) (n + 1) ls = flagged (withoutSynthetic n ss).2 (n + 1) ls :=
        flagged_congr (fun i hi => by simp [show i ≠ n by omega]) ls
      rw [hls, flagged, flagged, hrest, List.contains_cons, beq_self_eq_true, Bool.true_or]
      rfl
    | false =>
      have htouched : (withoutSynthetic n (s :: ss)).2 = (withoutSynthetic (n + s.text.count '\n') ss).2 := by
        simp [withoutSynthetic, hs]
      rw [markedLines_plain hs, plain_cons_of_not hs, htouched, ← ih (n + s.text.count '\n')]
      exact flagged_append s.text (source (plain ss)) fun i hi => le_of_mem_withoutSynthetic hi

/-! ## Lines that go -/

/-- What comes next is of no account at the end of a text unless it is a slash or a star. -/
theorem finish_congr {next next' : Option Char} (h : ∀ d, d = '/' ∨ d = '*' → (next = some d ↔ next' = some d)) (m : Mode)
    (x : Text) : finish m x next = finish m x next' := by
  induction x generalizing m with
  | nil => rfl
  | cons c x ih =>
    have hstep : step m c (x.head?.or next) = step m c (x.head?.or next') := by
      cases x with
      | nil => exact step_congr h m c
      | cons d x => rfl
    rw [finish_cons, finish_cons, hstep, ih]

/-- Where a text goes on behind a lexeme on its line, the lexeme is closed. -/
theorem finish_lexeme?_of_ne {t rest : Text} {s : Segment} (h : lexeme? t = some (s, rest)) (hne : rest ≠ [])
    (hline : ∀ u, rest ≠ '\n' :: u) (next : Option Char) : finish .code s.text next = .code := by
  -- The lexeme is read again in front of any other character.
  have hcode {d : Char} (hd : d ≠ '\n') : finish .code s.text (some d) = .code := by
    have hapart : StaysApart rest [d] := ⟨fun hnil => absurd hnil hne, fun u hu => absurd hu (hline u)⟩
    rcases finish_lexeme? (lexeme?_append h hapart) with hfinish | hnil | ⟨u, hu, -⟩
    · exact hfinish
    · cases hnil
    · exact absurd (List.cons.inj hu).1 hd
  by_cases hnext : next = none ∨ next = some '\n'
  · have hsame : finish .code s.text next = finish .code s.text (some 'a') := by
      refine finish_congr ?_ .code s.text
      rintro d (rfl | rfl) <;> rcases hnext with rfl | rfl <;> simp
    rw [hsame]
    exact hcode (by decide)
  · obtain ⟨hnone, hnewline⟩ := not_or.1 hnext
    obtain ⟨d, rfl⟩ := Option.ne_none_iff_exists'.1 hnone
    exact hcode fun hd => hnewline (by rw [hd])

/-- A line end that ends a lexeme leads into code. -/
theorem exit_lexeme? {t u : Text} {s : Segment} (h : lexeme? t = some (s, '\n' :: u)) :
    exit (finish .code s.text none) [] = .code := by
  have hsame : finish .code s.text none = finish .code s.text ('\n' :: u).head? :=
    finish_congr (by rintro d (rfl | rfl) <;> simp) .code s.text
  rcases finish_lexeme? h with hcode | hnil | ⟨-, -, hcode⟩
  · rw [hsame, hcode]
    rfl
  · cases hnil
  · rw [hsame]
    exact hcode none

/-- The first character of the first line. -/
def firstChar (ls : List (Text × Bool)) : Option Char := ls.head?.bind (·.1.head?)

theorem step_firstChar_onLine (m : Mode) (c d : Char) (ls : List (Text × Bool)) :
    step m c (firstChar (onLine d ls)) = step m c (some d) := by
  by_cases hd : d = '\n'
  · rw [hd, onLine_newline]
    exact (step_before_newline m c).symm
  · unfold onLine
    rw [if_neg hd]
    cases ls <;> rfl

/-- A line that goes still stands in code with a character in front. -/
theorem DropsCode.onLine {m : Mode} (hm : m.isProper = true) {c : Char} {ls : List (Text × Bool)}
    (h : DropsCode (step m c (firstChar ls)).2 ls) : DropsCode m (onLine c ls) := by
  by_cases hc : c = '\n'
  · rw [hc, onLine_newline]
    rw [hc, step_newline] at h
    exact ⟨fun h => absurd h Bool.false_ne_true, h⟩
  · cases ls with
    | nil =>
      rw [Java.onLine, if_neg hc]
      exact ⟨fun h => absurd h Bool.false_ne_true, trivial⟩
    | cons line ls =>
      obtain ⟨l, marked⟩ := line
      rw [onLine_cons hc]
      refine ⟨fun hmarked hblank => ?_, h.2⟩
      rw [isBlankLine, List.all_cons, Bool.and_eq_true] at hblank
      have hbehind := h.1 hmarked hblank.2
      rwa [step_of_isInert hm (isInert_of_isBlank hblank.1 hc), behind_behind] at hbehind

theorem DropsCode.foldr_onLine {m : Mode} (hm : m.isProper = true) {x : Text} {ls : List (Text × Bool)}
    (h : DropsCode (finish m x (firstChar ls)) ls) : DropsCode m (x.foldr Java.onLine ls) := by
  induction x generalizing m with
  | nil => exact h
  | cons c x ih =>
    rw [finish_cons] at h
    have hnext : step m c (firstChar (x.foldr Java.onLine ls)) = step m c (x.head?.or (firstChar ls)) := by
      cases x with
      | nil => rfl
      | cons d x => exact step_firstChar_onLine m c d _
    refine DropsCode.onLine hm ?_
    rw [hnext]
    exact ih (isProper_step hm c _) h

theorem firstChar_markedLines (ss : List Segment) (d : Char) (hd : d = '/' ∨ d = '*') :
    firstChar (markedLines ss) = some d ↔ (source (plain ss)).head? = some d := by
  have hmap := map_fst_markedLines ss
  generalize source (plain ss) = t at hmap
  generalize markedLines ss = ls at hmap
  have hfirst : firstChar ls = (splitOn '\n' t).head?.bind List.head? := by
    rw [← hmap]
    cases ls <;> rfl
  rw [hfirst]
  cases t with
  | nil => rfl
  | cons c t =>
    by_cases hc : c = '\n'
    · subst hc
      rcases hd with rfl | rfl <;> simp [splitOn]
    · obtain ⟨l, ls, hls⟩ := List.exists_cons_of_ne_nil (splitOn_ne_nil '\n' t)
      simp [splitOn, hc, hls]

/-- A line end begins a line that is not marked. -/
theorem markedLines_newline (t : Text) : ∃ ls, markedLines (segments ('\n' :: t)) = ([], false) :: ls := by
  have hcode (x : Text) (ss : List Segment) : ∃ ls, markedLines (⟨.code, '\n' :: x⟩ :: ss) = ([], false) :: ls := by
    rw [markedLines_plain rfl]
    exact ⟨_, onLine_newline _⟩
  rw [segments_of_code (lexeme?_of_blank isBlank_newline.1 t)]
  unfold consCode
  split
  · exact hcode _ _
  · exact hcode [] _

/-- **A marked line that goes stands in code.** -/
theorem dropsCode_markedLines (t : Text) : DropsCode .code (markedLines (segments t)) := by
  induction t using segments_induction with
  | nil =>
    rw [segments]
    exact ⟨fun h => absurd h Bool.false_ne_true, trivial⟩
  | run x y hne hcode hy hsegments ih =>
    rw [hsegments, markedLines_plain rfl]
    refine DropsCode.foldr_onLine rfl ?_
    rwa [finish_congr (firstChar_markedLines (segments y)), ← plainText, finish_of_codeBefore (hcode.plainText hy)]
  | lexeme t s rest hs hsegments ih =>
    cases hsynthetic : isSynthetic s with
    | true =>
      -- The comment opened in code.
      rw [hsegments, markedLines_synthetic hsynthetic]
      cases hls : markedLines (segments rest) with
      | nil => trivial
      | cons line ls =>
        rw [hls] at ih
        exact ⟨fun _ _ => rfl, ih.2⟩
    | false =>
      rw [hsegments, markedLines_plain hsynthetic]
      refine DropsCode.foldr_onLine rfl ?_
      cases rest with
      | nil =>
        rw [segments]
        exact ⟨fun h => absurd h Bool.false_ne_true, trivial⟩
      | cons c rest =>
        by_cases hc : c = '\n'
        · subst hc
          obtain ⟨ls, hls⟩ := markedLines_newline rest
          rw [hls] at ih ⊢
          refine ⟨fun h => absurd h Bool.false_ne_true, ?_⟩
          rw [show firstChar (([], false) :: ls) = none from rfl, exit_lexeme? hs]
          exact ih.2
        · rwa [finish_lexeme?_of_ne hs (by simp) fun u hu => hc (List.cons.inj hu).1]

/-! ## Stripped texts -/

/-- The marks are the same, but that the last line, if it is empty, may have lost its mark. -/
def SameMarks (ls ms : List (Text × Bool)) : Prop :=
  ms = ls ∨ ∃ front marked, ls = front ++ [([], marked)] ∧ ms = front ++ [([], false)]

namespace SameMarks

variable {ls ms : List (Text × Bool)} (h : SameMarks ls ms)
include h

theorem map_fst : ms.map Prod.fst = ls.map Prod.fst := by
  rcases h with rfl | ⟨front, marked, rfl, rfl⟩
  · rfl
  · simp

theorem dropsCode {m : Mode} (hdrops : DropsCode m ls) : DropsCode m ms := by
  rcases h with rfl | ⟨front, marked, rfl, rfl⟩
  · exact hdrops
  · induction front generalizing m with
    | nil => exact ⟨fun h => absurd h Bool.false_ne_true, trivial⟩
    | cons line front ih => exact ⟨hdrops.1, ih hdrops.2⟩

/-- An empty line has nothing to lose. -/
theorem trimsIn_iff {p : SegmentKind → Prop} {m : Mode} : TrimsIn p m ms ↔ TrimsIn p m ls := by
  rcases h with rfl | ⟨front, marked, rfl, rfl⟩
  · rfl
  · induction front generalizing m with
    | nil => exact ⟨fun _ => ⟨fun _ => .inl rfl, trivial⟩, fun _ => ⟨fun _ => .inl rfl, trivial⟩⟩
    | cons line front ih => exact and_congr Iff.rfl ih

end SameMarks

theorem tidied_append (ls ks : List (Text × Bool)) : tidied (ls ++ ks) = tidied ls ++ tidied ks := by
  induction ls with
  | nil => rfl
  | cons line ls ih =>
    obtain ⟨l, marked⟩ := line
    rw [List.cons_append, tidied, tidied, ih]
    split
    · split <;> rfl
    · rfl

theorem tidied_of_untouched (n : Nat) (ls : List Text) : tidied (flagged [] n ls) = ls := by
  induction ls generalizing n with
  | nil => rfl
  | cons l ls ih =>
    rw [flagged, tidied, ih]
    rfl

theorem plain_of_untouched {n : Nat} {ss : List Segment} (h : (withoutSynthetic n ss).2 = []) : plain ss = ss := by
  induction ss generalizing n with
  | nil => rfl
  | cons s ss ih =>
    cases hs : isSynthetic s with
    | true => simp [withoutSynthetic, hs] at h
    | false =>
      rw [plain_cons_of_not hs, ih (n := n + s.text.count '\n')]
      simpa [withoutSynthetic, hs] using h

/-- If tidied lines with an empty one at the end make a text that does not end with a line end, the empty one went. -/
theorem joinWith_tidied_concat {front : List (Text × Bool)} {marked : Bool}
    (hends : (joinWith ['\n'] (tidied (front ++ [([], marked)]))).getLast? ≠ some '\n')
    (hne : joinWith ['\n'] (tidied (front ++ [([], marked)])) ≠ []) :
    joinWith ['\n'] (tidied (front ++ [([], false)])) = joinWith ['\n'] (tidied (front ++ [([], marked)])) ++ ['\n'] := by
  rw [tidied_append] at hends hne
  have hfront : tidied front ≠ [] := by
    intro hnil
    rw [hnil] at hne
    exact hne (by cases marked <;> rfl)
  rw [tidied_append, tidied_append, show tidied [(([] : Text), false)] = [[]] from rfl, joinWith_concat_nil hfront]
  cases marked with
  | true => rw [show tidied [(([] : Text), true)] = [] from rfl, List.append_nil]
  | false =>
    rw [show tidied [(([] : Text), false)] = [[]] from rfl, joinWith_concat_nil hfront, List.getLast?_concat] at hends
    exact absurd rfl hends

/-- **What stays of a text** is its marked lines tidied, but that an empty last line stays if the text would not end with
    a line end otherwise. -/
theorem stripSynthetic_eq (t : Text) :
    ∃ ms, SameMarks (markedLines (segments t)) ms ∧ stripSynthetic t = joinWith ['\n'] (tidied ms) := by
  have hlines := flagged_eq_markedLines 0 (segments t)
  rw [stripSynthetic, withoutSynthetic_fst, keptLines_eq, hlines]
  dsimp only
  split
  · rename_i hnone
    refine ⟨_, .inl rfl, ?_⟩
    rw [← hlines, List.isEmpty_iff.1 hnone, tidied_of_untouched, joinWith_splitOn,
      plain_of_untouched (List.isEmpty_iff.1 hnone), source_segments]
  · split
    · rename_i hends
      simp only [Bool.and_eq_true, beq_iff_eq, Bool.not_eq_true', beq_eq_false_iff_ne, ne_eq,
        List.isEmpty_eq_false_iff] at hends
      obtain ⟨⟨hterminated, hkept⟩, hne⟩ := hends
      obtain ⟨ls, -, hls⟩ := getLast?_eq_newline_iff.1 hterminated
      rw [← map_fst_markedLines] at hls
      obtain ⟨front, last, hmarked, -, hlast⟩ := List.map_eq_append_iff.1 hls
      obtain ⟨⟨l, marked⟩, rfl, rfl⟩ := List.map_eq_singleton_iff.1 hlast
      rw [hmarked] at hkept hne ⊢
      exact ⟨front ++ [([], false)], .inr ⟨front, marked, rfl, rfl⟩, (joinWith_tidied_concat hkept hne).symm⟩
    · exact ⟨_, .inl rfl, rfl⟩

/-- A text without its synthetic comments is made of lines, and the stripped text of the same lines tidied, of which those
    that go stand in code. -/
theorem exists_tidied_lines (t : Text) : ∃ ms, SameMarks (markedLines (segments t)) ms ∧ (∀ l ∈ ms, '\n' ∉ l.1)
    ∧ DropsCode .code ms ∧ joinWith ['\n'] (ms.map Prod.fst) = plainText t
    ∧ joinWith ['\n'] (tidied ms) = stripSynthetic t := by
  obtain ⟨ms, hms, heq⟩ := stripSynthetic_eq t
  have hlines : ms.map Prod.fst = splitOn '\n' (plainText t) := hms.map_fst.trans (map_fst_markedLines _)
  refine ⟨ms, hms, fun l hl => ?_, hms.dropsCode (dropsCode_markedLines t), by rw [hlines, joinWith_splitOn], heq.symm⟩
  exact newline_not_mem_splitOn (t := plainText t) (hlines ▸ List.mem_map_of_mem hl)

/-- **A stripped text looks like the text without its synthetic comments**, where that can be said of the segments in which
    white space goes from marked lines. -/
theorem alike_stripSynthetic {seen : Text → List Text} {ρ : Text → Text → Prop} {p : SegmentKind → Prop}
    (hseen : Parting seen) (hrefl : ∀ x, ρ x x) (htrans : ∀ x y z, ρ x y → ρ y z → ρ x z)
    (hcomment : ∀ k, p k → k ≠ .code → ∀ x b r, (∀ c ∈ b, isBlank c = true) → EndsLine r → ρ (x ++ (b ++ r)) (x ++ r))
    (hnone : ¬ p .literal) {t : Text} (h : TrimsIn p .code (markedLines (segments t))) :
    symbols seen (segments (stripSynthetic t)) = symbols seen (segments (plainText t))
      ∧ List.Forall₂ ρ (notes (segments (plainText t))) (notes (segments (stripSynthetic t))) := by
  obtain ⟨ms, hms, hlines, hdrops, hplain, hstripped⟩ := exists_tidied_lines t
  rw [← hplain, ← hstripped]
  exact alike_joinWith hseen hrefl htrans hcomment hnone hlines hdrops (hms.trimsIn_iff.2 h)

end JavaMend.Java
