import JavaMend.Java.Comments
import JavaMend.Proofs.Java.Parts

/-!
# `Proofs.Java.RemovedComments` — what a text is read as when comments go

A lexeme is read again in front of another text, as long as that begins with a line end where the lexeme needs one. So
what stays of a text when its synthetic comments go is read as the segments that stay, code that meets taken together.

## Contents
- **Reading again.** `StaysApart`; `lexeme?_append`.
- **Segments in a row.** `joined`; `texts_joined`.
- **Plain segments.** `plain`; `withoutSynthetic_fst`.
- **Plain texts.** `plainText`; `partsFrom_plainText`, `segments_plainText`.
-/

namespace JavaMend.Java

open JavaMend Text

/-! ## Reading again -/

/-- Where one text ends or begins with a line end, so does the other one. -/
def StaysApart (rest rest' : Text) : Prop :=
  (rest = [] → rest' = []) ∧ ∀ u, rest = '\n' :: u → ∃ u', rest' = '\n' :: u'

theorem lineEnd_append (t : Text) {r : Text} (h : StaysApart (lineEnd t).2 r) :
    lineEnd ((lineEnd t).1 ++ r) = ((lineEnd t).1, r) := by
  have hline : ∀ c ∈ t.takeWhile (· != '\n'), (c != '\n') = true := List.all_eq_true.1 List.all_takeWhile
  have hr : r = [] ∨ ∃ u, r = '\n' :: u := by
    obtain hnil | ⟨u, hu⟩ := (lineEnd_spec t).2
    · exact .inl (h.1 hnil)
    · exact .inr (h.2 u hu.symm)
  rw [lineEnd, lineEnd, List.takeWhile_append_of_pos hline, List.dropWhile_append_of_pos hline]
  rcases hr with rfl | ⟨u, rfl⟩ <;> simp

theorem head_blockEnd (d : Char) (t : Text) : ∃ w, (blockEnd (d :: t)).1 = d :: w := by
  unfold blockEnd
  split
  · rename_i heq
    cases heq
  · rename_i heq
    cases heq
    exact ⟨_, rfl⟩
  · rename_i heq
    cases heq
    exact ⟨_, rfl⟩

theorem blockEnd_append (t : Text) {r : Text} (h : StaysApart (blockEnd t).2 r) :
    blockEnd ((blockEnd t).1 ++ r) = ((blockEnd t).1, r) := by
  fun_induction blockEnd t with
  | case1 =>
    rw [h.1 rfl]
    rfl
  | case2 t => rfl
  | case3 c t hne ih =>
    have hrest := ih h
    have hopen : ∀ u, c = '*' → (blockEnd t).1 ++ r ≠ '/' :: u := by
      rintro u rfl heq
      cases t with
      | nil =>
        rw [h.1 rfl] at heq
        cases heq
      | cons d t =>
        obtain ⟨w, hw⟩ := head_blockEnd d t
        rw [hw, List.cons_append] at heq
        exact hne t rfl (by rw [(List.cons.inj heq).1])
    rw [List.cons_append, blockEnd, hrest]
    exact hopen

theorem literalEnd_append (q : Char) (t : Text) {r : Text} (h : StaysApart (literalEnd q t).2 r) :
    literalEnd q ((literalEnd q t).1 ++ r) = ((literalEnd q t).1, r) := by
  fun_induction literalEnd q t with
  | case1 =>
    rw [h.1 rfl]
    rfl
  | case2 =>
    rw [h.1 rfl]
    rfl
  | case3 c t ih =>
    have hrest := ih h
    simp [literalEnd, hrest]
  | case4 t =>
    obtain ⟨u, rfl⟩ := h.2 t rfl
    simp [literalEnd]
  | case5 t h1 h2 hn =>
    have hb := ne_backslash_of_not h1 h2
    simp [literalEnd, hb, hn]
  | case6 c t h1 h2 hn hc ih =>
    have hb := ne_backslash_of_not h1 h2
    have hrest := ih h
    simp [literalEnd, hb, hn, hc, hrest]

/-- **A lexeme is read again** in front of a text that stays apart from it. -/
theorem lexeme?_append {t rest rest' : Text} {s : Segment} (h : lexeme? t = some (s, rest)) (hr : StaysApart rest rest') :
    lexeme? (s.text ++ rest') = some (s, rest') := by
  obtain ⟨u, rfl, rfl, rfl⟩ | ⟨u, rfl, rfl, rfl⟩ | ⟨q, u, hq, rfl, rfl, rfl⟩ := lexeme?_eq_some h
  · simp [lexeme?, lineEnd_append _ hr]
  · simp [lexeme?, blockEnd_append _ hr]
  · rcases hq with rfl | rfl <;> simp [lexeme?, literalEnd_append _ _ hr]

/-! ## Segments in a row -/

/-- The parts that segments make in a row: code that meets is one part. -/
def joined : List Segment → Parts
  | []      => ⟨[], []⟩
  | s :: ss =>
    if s.kind = .code then ⟨s.text ++ (joined ss).rest, (joined ss).later⟩
    else ⟨[], s :: ⟨.code, (joined ss).rest⟩ :: (joined ss).later⟩

theorem joined_code (x : Text) (ss : List Segment) :
    joined (⟨.code, x⟩ :: ss) = ⟨x ++ (joined ss).rest, (joined ss).later⟩ := rfl

theorem joined_lexeme {s : Segment} (hs : s.kind ≠ .code) (ss : List Segment) :
    joined (s :: ss) = ⟨[], s :: ⟨.code, (joined ss).rest⟩ :: (joined ss).later⟩ := if_neg hs

/-- The segments that are no code stay as they are. -/
theorem texts_joined {K : SegmentKind → Bool} (hcode : K .code = false) (ss : List Segment) :
    texts K (joined ss).later = texts K ss := by
  induction ss with
  | nil => rfl
  | cons s ss ih =>
    by_cases hs : s.kind = .code
    · obtain ⟨kind, x⟩ := s
      obtain rfl : kind = .code := hs
      rw [joined_code, texts_cons_of_neg hcode, ← ih]
    · rw [joined_lexeme hs]
      cases hK : K s.kind with
      | false => rw [texts_cons_of_neg hK, texts_cons_of_neg hK, texts_cons_of_neg hcode, ih]
      | true => rw [texts_cons_of_pos hK, texts_cons_of_pos hK, texts_cons_of_neg hcode, ih]

/-! ## Plain segments -/

/-- The segments that are no synthetic comments. -/
def plain (ss : List Segment) : List Segment := ss.filter fun s => !isSynthetic s

theorem plain_cons_of_not {s : Segment} (hs : isSynthetic s = false) (ss : List Segment) :
    plain (s :: ss) = s :: plain ss := by simp [plain, hs]

theorem plain_cons_synthetic {s : Segment} (hs : isSynthetic s = true) (ss : List Segment) :
    plain (s :: ss) = plain ss := by simp [plain, hs]

/-- What is left of segments is the source of the plain ones. -/
theorem withoutSynthetic_fst (line : Nat) (ss : List Segment) : (withoutSynthetic line ss).1 = source (plain ss) := by
  induction ss generalizing line with
  | nil => rfl
  | cons s ss ih =>
    cases hs : isSynthetic s with
    | true => simpa [withoutSynthetic, hs, plain_cons_synthetic hs] using ih line
    | false => simpa [withoutSynthetic, hs, plain_cons_of_not hs, source] using ih _

/-! ## Plain texts -/

/-- The text without its synthetic comments. -/
def plainText (t : Text) : Text := source (plain (segments t))

theorem plainText_nil : plainText [] = [] := by simp [plainText, segments, plain, source]

theorem plainText_newline (u : Text) : ∃ u', plainText ('\n' :: u) = '\n' :: u' := by
  have hnone : lexeme? ('\n' :: u) = none := lexeme?_of_blank isBlank_newline.1 u
  have hcode (x : Text) (ss : List Segment) : source (plain (⟨.code, '\n' :: x⟩ :: ss)) =
      '\n' :: (x ++ source (plain ss)) := by
    rw [plain_cons_of_not rfl]
    rfl
  rw [plainText, segments_of_code hnone]
  unfold consCode
  split
  · exact ⟨_, hcode _ _⟩
  · exact ⟨_, hcode [] _⟩

theorem staysApart_plainText (t : Text) : StaysApart t (plainText t) :=
  ⟨fun h => by rw [h, plainText_nil], fun u h => by rw [h]; exact plainText_newline u⟩

/-- What code stands in front of counts by its first character only, and not at all where that is a slash. -/
theorem CodeBefore.congr {x y z : Text} (h : CodeBefore x y) (hhead : z.head? = y.head? ∨ y.head? = some '/') :
    CodeBefore x z := by
  induction x with
  | nil => trivial
  | cons c x ih =>
    refine ⟨?_, ih h.2⟩
    obtain ⟨hslash, hquotes⟩ := lexeme?_eq_none_iff.1 h.1
    refine lexeme?_eq_none_iff.2 ⟨fun hc => ?_, hquotes⟩
    have hnext := hslash hc
    rw [head?_append_or] at hnext ⊢
    cases x with
    | nil =>
      rcases hhead with hhead | hhead
      · rwa [hhead]
      · exact absurd hhead hnext.1
    | cons d x => exact hnext

theorem plainText_of_lexeme? {t rest : Text} {s : Segment} (h : lexeme? t = some (s, rest)) :
    plainText t = if isSynthetic s then plainText rest else s.text ++ plainText rest := by
  rw [plainText, segments_of_lexeme? h]
  cases hs : isSynthetic s with
  | true =>
    rw [plain_cons_synthetic hs]
    rfl
  | false =>
    rw [plain_cons_of_not hs]
    rfl

/-- A comment opens with a slash. -/
theorem head?_of_isSynthetic {t rest : Text} {s : Segment} (h : lexeme? t = some (s, rest)) (hs : isSynthetic s = true) :
    t.head? = some '/' := by
  rw [isSynthetic, Bool.and_eq_true] at hs
  obtain ⟨hcomment, -⟩ := hs
  obtain ⟨u, rfl, -, -⟩ | ⟨u, rfl, -, -⟩ | ⟨q, u, -, -, rfl, -⟩ := lexeme?_eq_some h
  · rfl
  · rfl
  · cases hcomment

/-- Code stays code when the comments behind it go. -/
theorem CodeBefore.plainText {x y : Text} (h : CodeBefore x y) (hy : y = [] ∨ ∃ s rest, lexeme? y = some (s, rest)) :
    CodeBefore x (plainText y) := by
  rcases hy with rfl | ⟨s, rest, hs⟩
  · rwa [plainText_nil]
  · refine h.congr ?_
    rw [plainText_of_lexeme? hs]
    split
    · rename_i hsynthetic
      exact .inr (head?_of_isSynthetic hs hsynthetic)
    · obtain ⟨c, w, hw⟩ := List.exists_cons_of_ne_nil (lexeme?_ne_nil hs)
      rw [← source_lexeme? hs, hw]
      exact .inl rfl

/-- **Without its synthetic comments** a text is read as its other segments in a row. -/
theorem partsFrom_plainText (t : Text) : (partsFrom .code (plainText t)).rest = (joined (plain (segments t))).rest
    ∧ shown (partsFrom .code (plainText t)).later = shown (joined (plain (segments t))).later := by
  induction t using segments_induction with
  | nil =>
    rw [plainText_nil, segments]
    exact ⟨rfl, rfl⟩
  | run x y hne hcode hy hsegments ih =>
    have hplain : plain (segments (x ++ y)) = ⟨.code, x⟩ :: plain (segments y) := by
      rw [hsegments, plain_cons_of_not rfl]
    have htext : plainText (x ++ y) = x ++ plainText y := by rw [plainText, hplain]; rfl
    rw [htext, partsFrom_codeBefore (hcode.plainText hy), hplain, joined_code, ih.1, ih.2]
    exact ⟨rfl, rfl⟩
  | lexeme t s rest hs hsegments ih =>
    obtain ⟨hkind, -, -⟩ := parted_lexeme? hs
    cases hsynthetic : isSynthetic s with
    | true => rwa [plainText, hsegments, plain_cons_synthetic hsynthetic]
    | false =>
      have hplain : plain (segments t) = s :: plain (segments rest) := by
        rw [hsegments, plain_cons_of_not hsynthetic]
      have htext : plainText t = s.text ++ plainText rest := by simp [plainText_of_lexeme? hs, hsynthetic]
      obtain ⟨hrest, hlater⟩ := partsFrom_lexeme? (lexeme?_append hs (staysApart_plainText rest))
      rw [htext, hrest, hlater, hplain, joined_lexeme hkind]
      refine ⟨rfl, ?_⟩
      rw [fromCode_congr ih.1 ih.2]
      exact (List.filter_cons_of_pos (by simp [hkind])).symm

/-- **The segments without synthetic comments** are the other segments in a row. -/
theorem segments_plainText (t : Text) : segments (plainText t) = (joined (plain (segments t))).fromCode := by
  obtain ⟨hrest, hlater⟩ := partsFrom_plainText t
  rw [segments_eq, fromCode_congr hrest hlater]

end JavaMend.Java
