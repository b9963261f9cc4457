import JavaMend.Proofs.Java.TidiedLines

/-!
# `Proofs.Java.CutSegments` — white space that goes shows

Where a line is read, what comes behind it decides whether two texts have the same segments of some kinds. At a line that
loses white space in such a segment they do not: the segment goes on with white space in the one text, and ends or goes
on with a line end in the other. So if the segments of some kinds are the same, no line was cut in one of them.

## Contents
- **Views.** `Sees`; `sees_push`, `sees_pushAll`.
- **Lines.** `sees_line`; `Sees.drop`, `Sees.not_kind`, `Sees.cut`.
- **Cut lines.** `trimsIn_of_sees`, `trimsIn_of_texts`.
-/

namespace JavaMend.Java

open JavaMend Text

/-! ## Views -/

/-- Two texts in parts have the same segments of some kinds, the one in which they begin included. -/
def Sees (K : SegmentKind → Bool) (m : Mode) (a b : Parts) : Prop :=
  (K m.kind = true → a.rest = b.rest) ∧ texts K a.later = texts K b.later

section
variable {K : SegmentKind → Bool} (hK : K .code = false) {m : Mode}
include hK

theorem sees_push (c : Char) (next : Option Char) (a b : Parts) :
    Sees K m (a.push c m (step m c next).2) (b.push c m (step m c next).2) ↔ Sees K (step m c next).2 a b := by
  have hcode : ¬ K Mode.code.kind = true := by simp [Mode.kind, hK]
  by_cases hnext : (step m c next).2 = .code
  · rw [hnext]
    by_cases hm : m = .code
    · subst hm
      exact and_congr (iff_of_true (absurd · hcode) (absurd · hcode)) Iff.rfl
    · by_cases hc : c = '\n'
      · subst hc
        rw [push_newline _ hm, push_newline _ hm, Sees, Sees, texts_cons_of_neg hK, texts_cons_of_neg hK]
        exact and_congr (iff_of_true (fun _ => rfl) (absurd · hcode)) Iff.rfl
      · rw [push_closes _ _ hm hc, push_closes _ _ hm hc, Sees, Sees, texts_cons_of_neg hK, texts_cons_of_neg hK]
        exact and_congr (iff_of_true (fun _ => rfl) (absurd · hcode)) Iff.rfl
  · by_cases hm : m = .code
    · subst hm
      rw [push_opens _ _ hnext, push_opens _ _ hnext, Sees, Sees]
      cases hkind : K (step .code c next).2.kind with
      | false => simp [texts_cons_of_neg, hkind]
      | true => simp [texts_cons_of_pos, hkind, hcode]
    · rw [push_within _ _ hm hnext, push_within _ _ hm hnext, Sees, Sees, kind_step hm hnext]
      simp

theorem sees_pushAll (x : Text) (a b : Parts) :
    Sees K m (a.pushAll m x) (b.pushAll m x) ↔ Sees K (finish m x none) a b := by
  induction x generalizing m with
  | nil => rfl
  | cons c x ih =>
    rw [finish_cons, Option.or_none, ← ih]
    exact sees_push hK c _ _ _

/-! ## Lines -/

theorem sees_line {l y y' : Text} (hy : Apart y) (hy' : Apart y') :
    Sees K m (partsFrom m ('\n' :: (l ++ y))) (partsFrom m ('\n' :: (l ++ y')))
      ↔ Sees K (finish (exit m []) l none) (partsFrom (finish (exit m []) l none) y)
        (partsFrom (finish (exit m []) l none) y') := by
  have hpush := sees_push hK (m := m) '\n' none ((partsFrom (finish (exit m []) l none) y).pushAll (exit m []) l)
    ((partsFrom (finish (exit m []) l none) y').pushAll (exit m []) l)
  rw [step_newline] at hpush
  rw [partsFrom_behind_line m l hy, partsFrom_behind_line m l hy', hpush, sees_pushAll hK]

/-- Behind a line end that leads into code the segments are those of the code. -/
theorem texts_later_newline (hexit : exit m [] = .code) (t : Text) :
    texts K (partsFrom m ('\n' :: t)).later = texts K (partsFrom .code t).later := by
  have hcode : (partsFrom .code ('\n' :: t)).later = (partsFrom .code t).later := by
    rw [partsFrom_cons, step_newline, show exit .code [] = .code from rfl, push_code]
  by_cases hm : m = .code
  · rw [hm, hcode]
  · rw [partsFrom_endsLine hm hexit, texts_cons_of_neg hK, hcode]

theorem texts_later_behind (hexit : exit m [] = .code) (ls : List Text) :
    texts K (partsFrom m (behind ls)).later = texts K (partsFrom .code (behind ls)).later := by
  cases ls with
  | nil => rfl
  | cons l ls =>
    rw [show behind (l :: ls) = '\n' :: (l ++ behind ls) from rfl, texts_later_newline hK hexit,
      texts_later_newline hK rfl]

/-- A blank line that goes in code takes nothing else with it. -/
theorem Sees.drop (hexit : exit m [] = .code) {l : Text} (hl : isBlankLine l = true) (hline : '\n' ∉ l) {ls ks : List Text}
    (h : Sees K m (partsFrom m ('\n' :: (l ++ behind ls))) (partsFrom m (behind ks))) :
    Sees K .code (partsFrom .code (behind ls)) (partsFrom .code (behind ks)) := by
  refine ⟨fun hcode => absurd hcode (by simp [Mode.kind, hK]), ?_⟩
  have hlater := h.2
  rwa [texts_later_newline hK hexit, partsFrom_blanks rfl rfl (List.all_eq_true.1 hl) hline (by decide),
    texts_later_behind hK hexit] at hlater

/-- **White space at the end of a line shows** in a segment other than code. -/
theorem Sees.not_kind {b y y' : Text} (hne : b ≠ []) (hline : '\n' ∉ b) (hy : EndsLine y')
    (h : Sees K m (partsFrom m (b ++ y)) (partsFrom m y')) : K m.kind = false := by
  refine Bool.eq_false_iff.2 fun hkind => ?_
  have hm : m ≠ .code := by
    rintro rfl
    rw [show Mode.code.kind = .code from rfl, hK] at hkind
    cases hkind
  obtain ⟨c, b, rfl⟩ := List.exists_cons_of_ne_nil hne
  have hc : c ≠ '\n' := fun hc => hline (hc ▸ List.mem_cons_self)
  have hends := endsLine_rest m hy
  rw [← h.1 hkind, EndsLine, List.cons_append, head?_rest hm hc] at hends
  exact hc (by simpa using hends)

/-- A line that is cut ends in a segment of another kind, and behind it the same segments are seen. In a literal that is not
    seen reading could go on otherwise, so it must not end in one. -/
theorem Sees.cut (hm : m.isProper = true) {k b y y' : Text} (hb : ∀ c ∈ b, isBlank c = true) (hne : b ≠ [])
    (hline : '\n' ∉ b) (hy : Apart y) (hy' : EndsLine y')
    (hliteral : K .literal = true ∨ (finish (exit m []) (k ++ b) none).kind ≠ .literal)
    (h : Sees K m (partsFrom m ('\n' :: (k ++ b ++ y))) (partsFrom m ('\n' :: (k ++ y')))) :
    K (finish (exit m []) (k ++ b) none).kind = false
      ∧ Sees K (finish (exit m []) (k ++ b) none) (partsFrom (finish (exit m []) (k ++ b) none) y)
        (partsFrom (finish (exit m []) (k ++ b) none) y') := by
  have hopens := opensLine_exit m []
  obtain ⟨hkind, hmode⟩ := finish_cut hopens (isProper_exit hm) k hb hline
  rw [List.append_assoc, sees_line hK (apart_blanks hb hline hy) hy'.apart] at h
  have hnot := h.not_kind hK hne hline hy'
  rw [hkind] at hliteral ⊢
  have houter : (finish (exit m []) k none).kind ≠ .literal := by
    rcases hliteral with hyes | houter
    · intro heq
      rw [heq, hyes] at hnot
      cases hnot
    · exact houter
  rw [hmode houter]
  rw [partsFrom_blanks (endsLine_finish (endsLine_of_opensLine hopens) k) (isProper_finish (isProper_exit hm) k none) hb
    hline houter] at h
  exact ⟨hnot, fun hyes => absurd hyes (by simp [hnot]), h.2⟩

/-! ## Cut lines -/

/-- **If the segments of some kinds stay, no line was cut in one of them.** Where literals are not among the kinds, it has
    to be known that no line was cut in one, as reading goes on in them. -/
theorem trimsIn_of_sees (hm : m.isProper = true) {ls : List (Text × Bool)} (hlines : ∀ l ∈ ls, '\n' ∉ l.1)
    (hdrops : DropsCode (exit m []) ls) (hliteral : K .literal = true ∨ TrimsIn (· ≠ .literal) (exit m []) ls)
    (h : Sees K m (partsFrom m (behind (ls.map Prod.fst))) (partsFrom m (behind (tidied ls)))) :
    TrimsIn (fun k => K k = false) (exit m []) ls := by
  induction ls generalizing m with
  | nil => trivial
  | cons line ls ih =>
    obtain ⟨l, marked⟩ := line
    obtain ⟨hl, hls⟩ := List.forall_mem_cons.1 hlines
    obtain ⟨hdrop, hdrops⟩ := hdrops
    have hlater : K .literal = true ∨ TrimsIn (· ≠ .literal) (exit (exit m []) l) ls := hliteral.imp_right And.right
    have hrest (hsees : Sees K (finish (exit m []) l none)
        (partsFrom (finish (exit m []) l none) (behind (ls.map Prod.fst)))
        (partsFrom (finish (exit m []) l none) (behind (tidied ls)))) :
        TrimsIn (fun k => K k = false) (exit (exit m []) l) ls := by
      rw [exit_eq] at hdrops hlater ⊢
      exact ih (isProper_finish (isProper_exit hm) l none) hls hdrops hlater hsees
    have hends (ks : List Text) := endsLine_behind ks
    have hbehind (k : Text) (ks : List Text) : behind (k :: ks) = '\n' :: (k ++ behind ks) := rfl
    rw [List.map_cons, hbehind] at h
    rcases tidied_cases l marked ls with ⟨htidied, hsame⟩ | ⟨htidied, hmarked, hblank⟩ |
      ⟨k, b, htidied, hmarked, hcut, rfl, hne, hblanks⟩
    · -- The line stays.
      rw [htidied, hbehind, sees_line hK (hends _).apart (hends _).apart] at h
      exact ⟨fun hmarked => .inl (hsame hmarked), hrest h⟩
    · -- The line goes.
      obtain ⟨hcode, hexit⟩ := exit_of_goes hblank (hdrop hmarked hblank)
      have hkind : K (finish (exit m []) l none).kind = false := by
        rw [hcode, kind_finish_blanks rfl rfl (List.all_eq_true.1 hblank) hl]
        exact hK
      rw [htidied] at h
      rw [hexit] at hdrops hlater
      refine ⟨fun _ => .inr hkind, ?_⟩
      rw [hexit]
      exact ih (m := .code) rfl hls hdrops hlater (h.drop hK hcode hblank hl)
    · -- The line is cut.
      rw [htidied, hbehind] at h
      obtain ⟨hkind, hsees⟩ := h.cut hK hm hblanks hne (fun hmem => hl (List.mem_append_right k hmem)) (hends _).apart
        (hends _) (hliteral.imp_right fun htrims => (htrims.1 hmarked).resolve_left hcut)
      exact ⟨fun _ => .inr hkind, hrest hsees⟩

/-- **Lines of a text were not cut in segments that stay.** -/
theorem trimsIn_of_texts {ls : List (Text × Bool)} (hlines : ∀ l ∈ ls, '\n' ∉ l.1) (hdrops : DropsCode .code ls)
    (hliteral : K .literal = true ∨ TrimsIn (· ≠ .literal) .code ls)
    (h : texts K (segments (joinWith ['\n'] (ls.map Prod.fst))) = texts K (segments (joinWith ['\n'] (tidied ls)))) :
    TrimsIn (fun k => K k = false) .code ls := by
  rw [texts_joinWith hK, texts_joinWith hK] at h
  exact trimsIn_of_sees hK (m := .code) rfl hlines hdrops hliteral ⟨fun hcode => absurd hcode (by simp [Mode.kind, hK]), h⟩

end

end JavaMend.Java
