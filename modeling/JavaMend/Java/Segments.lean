import JavaMend.Text
import JavaMend.Text.Words

/-!
# `Java.Segments` — code, literals and comments

A Java text is a row of segments: literals, line comments, block comments, and the code between them. Edits
of code go through `mapCode`, which leaves literals and comments as they are.

## Contents
- **Kinds.** `SegmentKind`, `Segment`.
- **Lexemes.** `lineEnd`, `blockEnd`, `literalEnd`, `lexeme?`: what opens at a position and where it ends;
  `lexeme?_eq_some` gives the cases.
- **Segments.** `segments`; `source_segments` says that the segments spell the text.
- **Code.** `mapCode`; `mapCode_id`.
-/

namespace JavaMend.Java

open JavaMend Text

/-! ## Kinds -/

/-- What a stretch of text is. -/
inductive SegmentKind where
  | code
  /-- A string or a character. -/
  | literal
  | lineComment
  | blockComment
deriving DecidableEq, Repr

/-- A stretch of text of one kind. -/
structure Segment where
  kind : SegmentKind
  text : Text
deriving DecidableEq, Repr

/-- The segment is a comment of either kind. -/
def Segment.isComment (s : Segment) : Bool := s.kind == .lineComment || s.kind == .blockComment

/-! ## Lexemes -/

/-- A line comment ends before the end of its line. -/
def lineEnd (t : Text) : Text × Text := (t.takeWhile (· != '\n'), t.dropWhile (· != '\n'))

/-- A block comment ends with the first closing mark, or with the text. -/
def blockEnd : Text → Text × Text
  | []              => ([], [])
  | '*' :: '/' :: t => (['*', '/'], t)
  | c :: t          => (c :: (blockEnd t).1, (blockEnd t).2)

/-- A literal ends with its quote, before the end of its line, or with the text. A backslash takes the next
    character with it. -/
def literalEnd (quote : Char) : Text → Text × Text
  | []             => ([], [])
  | ['\\']         => (['\\'], [])
  | '\\' :: c :: t => ('\\' :: c :: (literalEnd quote t).1, (literalEnd quote t).2)
  | c :: t         =>
    if c = '\n' then ([], c :: t)
    else if c = quote then ([c], t)
    else (c :: (literalEnd quote t).1, (literalEnd quote t).2)

/-- The literal or comment that opens at a position, and what follows it. -/
def lexeme? : Text → Option (Segment × Text)
  | '/' :: '/' :: t => some (⟨.lineComment, '/' :: '/' :: (lineEnd t).1⟩, (lineEnd t).2)
  | '/' :: '*' :: t => some (⟨.blockComment, '/' :: '*' :: (blockEnd t).1⟩, (blockEnd t).2)
  | '"' :: t        => some (⟨.literal, '"' :: (literalEnd '"' t).1⟩, (literalEnd '"' t).2)
  | '\'' :: t       => some (⟨.literal, '\'' :: (literalEnd '\'' t).1⟩, (literalEnd '\'' t).2)
  | _               => none

theorem append_blockEnd (t : Text) : (blockEnd t).1 ++ (blockEnd t).2 = t := by
  fun_induction blockEnd t with
  | case1 => rfl
  | case2 => rfl
  | case3 c t _ ih => simp [ih]

theorem append_literalEnd (quote : Char) (t : Text) :
    (literalEnd quote t).1 ++ (literalEnd quote t).2 = t := by
  fun_induction literalEnd quote t with
  | case1 => rfl
  | case2 => rfl
  | case3 c t ih => simp [ih]
  | case4 => simp
  | case5 => simp
  | case6 c t _ _ _ _ ih => simp [ih]

theorem append_lineEnd (t : Text) : (lineEnd t).1 ++ (lineEnd t).2 = t := by
  simp [lineEnd]

/-- A line comment goes on to the end of its line, or of the text. -/
theorem lineEnd_spec (t : Text) : '\n' ∉ (lineEnd t).1 ∧ ((lineEnd t).2 = [] ∨ ['\n'] <+: (lineEnd t).2) := by
  refine ⟨fun hmem => by simpa using List.all_eq_true.1 List.all_takeWhile _ hmem, ?_⟩
  cases hrest : (lineEnd t).2 with
  | nil => exact .inl rfl
  | cons c u =>
    have hc := List.head?_dropWhile_not (· != '\n') t
    rw [show t.dropWhile (· != '\n') = c :: u from hrest] at hc
    obtain rfl : c = '\n' := by simpa using hc
    exact .inr ⟨u, rfl⟩

/-- **What opens at a position** is a line comment, a block comment, or a literal with either quote. -/
theorem lexeme?_eq_some {t rest : Text} {s : Segment} (h : lexeme? t = some (s, rest)) :
    (∃ u, t = '/' :: '/' :: u ∧ s = ⟨.lineComment, '/' :: '/' :: (lineEnd u).1⟩ ∧ rest = (lineEnd u).2)
      ∨ (∃ u, t = '/' :: '*' :: u ∧ s = ⟨.blockComment, '/' :: '*' :: (blockEnd u).1⟩ ∧ rest = (blockEnd u).2)
      ∨ ∃ q u, (q = '"' ∨ q = '\'') ∧ t = q :: u ∧ s = ⟨.literal, q :: (literalEnd q u).1⟩
        ∧ rest = (literalEnd q u).2 := by
  unfold lexeme? at h
  split at h
  · cases h
    exact .inl ⟨_, rfl, rfl, rfl⟩
  · cases h
    exact .inr (.inl ⟨_, rfl, rfl, rfl⟩)
  · cases h
    exact .inr (.inr ⟨'"', _, .inl rfl, rfl, rfl, rfl⟩)
  · cases h
    exact .inr (.inr ⟨'\'', _, .inr rfl, rfl, rfl, rfl⟩)
  · cases h

/-- A lexeme and what follows it spell the text. -/
theorem source_lexeme? {t rest : Text} {s : Segment} (h : lexeme? t = some (s, rest)) :
    s.text ++ rest = t := by
  obtain ⟨u, rfl, rfl, rfl⟩ | ⟨u, rfl, rfl, rfl⟩ | ⟨q, u, -, rfl, rfl, rfl⟩ := lexeme?_eq_some h
  · simp [append_lineEnd]
  · simp [append_blockEnd]
  · simp [append_literalEnd]

/-- A lexeme is not empty. -/
theorem lexeme?_ne_nil {t rest : Text} {s : Segment} (h : lexeme? t = some (s, rest)) : s.text ≠ [] := by
  obtain ⟨u, -, rfl, -⟩ | ⟨u, -, rfl, -⟩ | ⟨q, u, -, -, rfl, -⟩ := lexeme?_eq_some h <;> simp

theorem length_lexeme?_lt {t rest : Text} {s : Segment} (h : lexeme? t = some (s, rest)) :
    rest.length < t.length := by
  have h1 := congrArg List.length (source_lexeme? h)
  have h2 := List.length_pos_iff.2 (lexeme?_ne_nil h)
  simp only [List.length_append] at h1
  omega

/-! ## Segments -/

/-- Put a character of code in front of segments. -/
def consCode (c : Char) : List Segment → List Segment
  | ⟨.code, t⟩ :: rest => ⟨.code, c :: t⟩ :: rest
  | rest               => ⟨.code, [c]⟩ :: rest

/-- The segments of a text. -/
def segments : Text → List Segment
  | []     => []
  | c :: t =>
    match _h : lexeme? (c :: t) with
    | some (s, rest) => s :: segments rest
    | none           => consCode c (segments t)
termination_by t => t.length
decreasing_by
  · exact length_lexeme?_lt _h
  · simp

/-- The text that segments spell. -/
def source (ss : List Segment) : Text := ss.flatMap (·.text)

theorem source_consCode (c : Char) (ss : List Segment) : source (consCode c ss) = c :: source ss := by
  unfold consCode
  split <;> simp [source]

/-- The segments of a text spell the text. -/
theorem source_segments (t : Text) : source (segments t) = t := by
  fun_induction segments t with
  | case1 => rfl
  | case2 c t s rest h ih =>
    have := source_lexeme? h
    simp only [source, List.flatMap_cons] at ih ⊢
    rw [ih, this]
  | case3 c t h ih => rw [source_consCode, ih]

/-! ## Code -/

/-- Change the code of a text, each stretch on its own, and keep literals and comments. -/
def mapCode (f : Text → Text) (t : Text) : Text :=
  (segments t).flatMap fun s => if s.kind = .code then f s.text else s.text

/-- What `f` finds in the stretches of code of a text, in order. -/
def collectCode {α : Type} (f : Text → List α) (t : Text) : List α :=
  (segments t).flatMap fun s => if s.kind = .code then f s.text else []

theorem mapCode_id (t : Text) : mapCode id t = t := by
  unfold mapCode
  simpa [source] using source_segments t

end JavaMend.Java
