import JavaMend.Proofs.Java.ShortenedCode

/-!
# `Proofs.Java.Parts` — a text read into parts

Read with a mode, character by character, a text gives what is left of the segment in which it begins, and the segments
after that one. Where a lexeme ends code begins, if only an empty stretch of it, so a text can be read on behind any
other one; read from code on, the parts that are not empty are the segments.

## Contents
- **Parts.** `Mode.kind`, `Parts`, `Parts.push`, `partsFrom`.
- **Reading on.** `Parts.pushAll`; `partsFrom_append`.
- **Segments.** `shown`, `texts`, `Parts.fromCode`; `partsFrom_lexeme?`, `segments_eq`.
-/

namespace JavaMend.Java

open JavaMend Text

/-! ## Parts -/

/-- The kind of the segment that is read in a mode. -/
def Mode.kind : Mode → SegmentKind
  | .code                               => .code
  | .line                               => .lineComment
  | .blockOpens | .block | .blockCloses => .blockComment
  | .literal _ | .escaped _             => .literal

theorem kind_eq_code_iff {m : Mode} : m.kind = .code ↔ m = .code := by
  cases m <;> simp [Mode.kind]

/-- A text in parts: what is left of a segment, and the segments after it. -/
structure Parts where
  rest : Text
  later : List Segment
deriving DecidableEq, Repr

/-- Parts with a character in front that leads from one mode to the next. A line end that ends a lexeme is code. -/
def Parts.push (p : Parts) (c : Char) (m next : Mode) : Parts :=
  if m = .code then
    if next = .code then ⟨c :: p.rest, p.later⟩ else ⟨[], ⟨next.kind, c :: p.rest⟩ :: p.later⟩
  else if next = .code then
    if c = '\n' then ⟨[], ⟨.code, c :: p.rest⟩ :: p.later⟩ else ⟨[c], ⟨.code, p.rest⟩ :: p.later⟩
  else ⟨c :: p.rest, p.later⟩

/-- The parts of a text that is read from a mode on. -/
def partsFrom : Mode → Text → Parts
  | _, []     => ⟨[], []⟩
  | m, c :: t => (partsFrom (step m c t.head?).2 t).push c m (step m c t.head?).2

@[simp] theorem partsFrom_nil (m : Mode) : partsFrom m [] = ⟨[], []⟩ := rfl

theorem partsFrom_cons (m : Mode) (c : Char) (t : Text) :
    partsFrom m (c :: t) = (partsFrom (step m c t.head?).2 t).push c m (step m c t.head?).2 := rfl

section
variable (p : Parts) (c : Char) {m next : Mode}

theorem push_code : p.push c .code .code = ⟨c :: p.rest, p.later⟩ := rfl

theorem push_opens (h : next ≠ .code) : p.push c .code next = ⟨[], ⟨next.kind, c :: p.rest⟩ :: p.later⟩ := by
  simp [Parts.push, h]

theorem push_within (hm : m ≠ .code) (h : next ≠ .code) : p.push c m next = ⟨c :: p.rest, p.later⟩ := by
  simp [Parts.push, hm, h]

theorem push_newline (hm : m ≠ .code) : p.push '\n' m .code = ⟨[], ⟨.code, '\n' :: p.rest⟩ :: p.later⟩ := by
  simp [Parts.push, hm]

theorem push_closes (hm : m ≠ .code) (hc : c ≠ '\n') : p.push c m .code = ⟨[c], ⟨.code, p.rest⟩ :: p.later⟩ := by
  simp [Parts.push, hm, hc]

end

/-! ## Reading on -/

/-- Parts with a text in front that is read from a mode on. -/
def Parts.pushAll (p : Parts) : Mode → Text → Parts
  | _, []     => p
  | m, c :: x => (p.pushAll (step m c x.head?).2 x).push c m (step m c x.head?).2

/-- **A text is read on behind another one** if it makes no mark with its last character. -/
theorem partsFrom_append (m : Mode) (x : Text) {y : Text} (hy : Apart y) :
    partsFrom m (x ++ y) = (partsFrom (finish m x none) y).pushAll m x := by
  induction x generalizing m with
  | nil => rfl
  | cons c x ih =>
    rw [List.cons_append, partsFrom_cons, step_append_of_apart hy, ih, finish_cons, Option.or_none]
    rfl

/-- A run of code is code of the text. -/
theorem partsFrom_codeBefore {x y : Text} (h : CodeBefore x y) :
    partsFrom .code (x ++ y) = ⟨x ++ (partsFrom .code y).rest, (partsFrom .code y).later⟩ := by
  induction x with
  | nil => rfl
  | cons c x ih =>
    rw [List.cons_append, partsFrom_cons, step_code_of_none h.1, ih h.2, push_code]
    rfl

/-! ## Segments -/

/-- The segments without empty code. -/
def shown (ss : List Segment) : List Segment := ss.filter fun s => s.kind != .code || !s.text.isEmpty

/-- The segments of parts that begin in code. -/
def Parts.fromCode (p : Parts) : List Segment := shown (⟨.code, p.rest⟩ :: p.later)

/-- The texts of the segments of some kinds, in order. -/
def texts (K : SegmentKind → Bool) (ss : List Segment) : List Text := (ss.filter fun s => K s.kind).map (·.text)

theorem literals_eq_texts (t : Text) : literals t = texts (· = .literal) (segments t) := rfl

section
variable {K : SegmentKind → Bool}

theorem texts_cons_of_pos {s : Segment} (h : K s.kind = true) (ss : List Segment) :
    texts K (s :: ss) = s.text :: texts K ss := by simp [texts, h]

theorem texts_cons_of_neg {s : Segment} (h : K s.kind = false) (ss : List Segment) : texts K (s :: ss) = texts K ss := by
  simp [texts, h]

theorem texts_shown (hcode : K .code = false) (ss : List Segment) : texts K (shown ss) = texts K ss := by
  have hfilter : (shown ss).filter (fun s => K s.kind) = ss.filter fun s => K s.kind := by
    rw [shown, List.filter_filter]
    refine List.filter_congr fun s _ => ?_
    by_cases hs : s.kind = .code <;> simp [hs, hcode]
  rw [texts, hfilter, texts]

end

theorem fromCode_of_rest_eq_nil {p : Parts} (h : p.rest = []) : p.fromCode = shown p.later := by
  rw [Parts.fromCode, h]
  rfl

theorem fromCode_congr {p q : Parts} (hrest : p.rest = q.rest) (hlater : shown p.later = shown q.later) :
    p.fromCode = q.fromCode := by
  have hcons (s : Segment) (ss : List Segment) : shown (s :: ss) = shown [s] ++ shown ss := List.filter_append [s] ss
  rw [Parts.fromCode, Parts.fromCode, hrest, hcons, hcons _ q.later, hlater]

theorem partsFrom_line (t : Text) :
    (partsFrom .line t).rest = (lineEnd t).1
      ∧ shown (partsFrom .line t).later = (partsFrom .code (lineEnd t).2).fromCode := by
  induction t with
  | nil => exact ⟨rfl, rfl⟩
  | cons c t ih =>
    by_cases hc : c = '\n'
    · subst hc
      exact ⟨rfl, rfl⟩
    · have hmode : (step .line c t.head?).2 = .line := if_neg hc
      rw [partsFrom_cons, hmode, push_within _ _ (by simp) (by simp)]
      simpa [lineEnd, hc] using ih

theorem partsFrom_block (t : Text) :
    (partsFrom .block t).rest = (blockEnd t).1
      ∧ shown (partsFrom .block t).later = (partsFrom .code (blockEnd t).2).fromCode := by
  fun_induction blockEnd t with
  | case1 => exact ⟨rfl, rfl⟩
  | case2 t =>
    have hopens : (step .block '*' ('/' :: t).head?).2 = .blockCloses := rfl
    have hcloses : (step .blockCloses '/' t.head?).2 = .code := rfl
    rw [partsFrom_cons, hopens, partsFrom_cons, hcloses, push_closes _ _ (by simp) (by simp),
      push_within _ _ (by simp) (by simp)]
    exact ⟨rfl, rfl⟩
  | case3 c t hne ih =>
    rw [partsFrom_cons, step_block hne, push_within _ _ (by simp) (by simp)]
    exact ⟨congrArg (c :: ·) ih.1, ih.2⟩

theorem partsFrom_literal (q : Char) (t : Text) :
    (partsFrom (.literal q) t).rest = (literalEnd q t).1
      ∧ shown (partsFrom (.literal q) t).later = (partsFrom .code (literalEnd q t).2).fromCode := by
  fun_induction literalEnd q t with
  | case1 => exact ⟨rfl, rfl⟩
  | case2 => exact ⟨rfl, rfl⟩
  | case3 c t ih =>
    have hescape : (step (.literal q) '\\' (c :: t).head?).2 = .escaped q := rfl
    have hbehind : (step (.escaped q) c t.head?).2 = .literal q := rfl
    rw [partsFrom_cons, hescape, partsFrom_cons, hbehind, push_within _ _ (by simp) (by simp),
      push_within _ _ (by simp) (by simp)]
    exact ⟨congrArg (fun u => '\\' :: c :: u) ih.1, ih.2⟩
  | case4 t =>
    have hline : (step (.literal q) '\n' t.head?).2 = .code := rfl
    rw [partsFrom_cons, hline, push_newline _ (by simp)]
    exact ⟨rfl, rfl⟩
  | case5 t h1 h2 hn =>
    have hb := ne_backslash_of_not h1 h2
    have hcloses : (step (.literal q) q t.head?).2 = .code := by simp [step, hb]
    rw [partsFrom_cons, hcloses, push_closes _ _ (by simp) hn]
    exact ⟨rfl, rfl⟩
  | case6 c t h1 h2 hn hc ih =>
    have hb := ne_backslash_of_not h1 h2
    have hmode : (step (.literal q) c t.head?).2 = .literal q := by simp [step, hb, hn, hc]
    rw [partsFrom_cons, hmode, push_within _ _ (by simp) (by simp)]
    exact ⟨congrArg (c :: ·) ih.1, ih.2⟩

/-- **A lexeme is a part of its own**, and the text goes on in code behind it. -/
theorem partsFrom_lexeme? {t rest : Text} {s : Segment} (h : lexeme? t = some (s, rest)) :
    (partsFrom .code t).rest = [] ∧ shown (partsFrom .code t).later = s :: (partsFrom .code rest).fromCode := by
  obtain ⟨u, rfl, rfl, rfl⟩ | ⟨u, rfl, rfl, rfl⟩ | ⟨q, u, hq, rfl, rfl, rfl⟩ := lexeme?_eq_some h
  · obtain ⟨hrest, hlater⟩ := partsFrom_line u
    have hopens : (step .code '/' ('/' :: u).head?).2 = .line := rfl
    have hmode : (step .line '/' u.head?).2 = .line := rfl
    rw [partsFrom_cons, hopens, push_opens _ _ (by simp), partsFrom_cons, hmode, push_within _ _ (by simp) (by simp),
      hrest, ← hlater]
    exact ⟨rfl, rfl⟩
  · obtain ⟨hrest, hlater⟩ := partsFrom_block u
    have hopens : (step .code '/' ('*' :: u).head?).2 = .blockOpens := rfl
    have hmode : (step .blockOpens '*' u.head?).2 = .block := rfl
    rw [partsFrom_cons, hopens, push_opens _ _ (by simp), partsFrom_cons, hmode, push_within _ _ (by simp) (by simp),
      hrest, ← hlater]
    exact ⟨rfl, rfl⟩
  · obtain ⟨hrest, hlater⟩ := partsFrom_literal q u
    rw [partsFrom_cons, step_quote hq, push_opens _ _ (by simp), hrest, ← hlater]
    exact ⟨rfl, rfl⟩

/-- **The segments of a text are its parts**, but for the empty ones. -/
theorem segments_eq (t : Text) : segments t = (partsFrom .code t).fromCode := by
  induction t using segments_induction with
  | nil => simp [segments, Parts.fromCode, shown]
  | run x y hne hcode hy hsegments ih =>
    have hrest : (partsFrom .code y).rest = [] := by
      rcases hy with rfl | ⟨s, rest, hs⟩
      · rfl
      · exact (partsFrom_lexeme? hs).1
    rw [hsegments, ih, partsFrom_codeBefore hcode, fromCode_of_rest_eq_nil hrest, hrest, List.append_nil]
    simp [Parts.fromCode, shown, hne]
  | lexeme t s rest hs hsegments ih =>
    obtain ⟨hrest, hlater⟩ := partsFrom_lexeme? hs
    rw [hsegments, ih, fromCode_of_rest_eq_nil hrest, hlater]

end JavaMend.Java
