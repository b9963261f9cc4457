import JavaMend.Proofs.Java.ShortenedCode

/-!
# `Proofs.Java.SegmentGrammar` — what the segments of a text look like

Segments are found by reading on from their first character. This module says what they are without reading: what each kind
of segment is made of, and what may stand behind it (`Fits`). A text is a row of such segments in one way only, and
`segments` finds it (`isRow_iff`).

## Contents
- **Segments.** `Opens`, `LiteralBody`, `Fits`, `IsRow`.
- **Lexemes.** `opens_iff`; `blockEnd_spec`, `literalEnd_spec`; `fits_of_lexeme?`, `lexeme?_of_fits`.
- **Code.** `codeBefore_iff`; `segments_of_codeBefore`.
- **Rows.** `isRow_segments`, `eq_segments_of_isRow`; `isRow_iff`.
-/

namespace JavaMend.Java

open JavaMend Text

/-! ## Segments -/

/-- A literal or a comment opens at the start. -/
def Opens (t : Text) : Prop := ['/', '/'] <+: t ∨ ['/', '*'] <+: t ∨ ['"'] <+: t ∨ ['\''] <+: t

/-- What lies between the quotes of a literal. A backslash takes the next character with it, whatever that is. -/
inductive LiteralBody (quote : Char) : Text → Prop
  | nil : LiteralBody quote []
  | plain {c : Char} {t : Text} : c ≠ '\\' → c ≠ '\n' → c ≠ quote → LiteralBody quote t → LiteralBody quote (c :: t)
  | escaped {c : Char} {t : Text} : LiteralBody quote t → LiteralBody quote ('\\' :: c :: t)

/-- **The segment can stand in front of the text.** Code goes on until a literal or a comment opens, a line comment until
    the line ends, a block comment until its first closing mark, a literal until its quote or the end of its line, and
    each of them ends with the text at the latest. -/
inductive Fits : Segment → Text → Prop
  | code {u rest : Text} : u ≠ [] → (∀ x y, u = x ++ y → y ≠ [] → ¬ Opens (y ++ rest)) → (rest = [] ∨ Opens rest) →
      Fits ⟨.code, u⟩ rest
  | lineComment {body rest : Text} : '\n' ∉ body → (rest = [] ∨ ['\n'] <+: rest) →
      Fits ⟨.lineComment, '/' :: '/' :: body⟩ rest
  | blockComment {body rest : Text} : ¬ ['*', '/'] <:+: body →
      Fits ⟨.blockComment, '/' :: '*' :: (body ++ ['*', '/'])⟩ rest
  | openComment {body : Text} : ¬ ['*', '/'] <:+: body → Fits ⟨.blockComment, '/' :: '*' :: body⟩ []
  | literal {quote : Char} {body rest : Text} : quote = '"' ∨ quote = '\'' → LiteralBody quote body →
      Fits ⟨.literal, quote :: (body ++ [quote])⟩ rest
  | openLiteral {quote : Char} {body rest : Text} : quote = '"' ∨ quote = '\'' → LiteralBody quote body →
      (rest = [] ∨ ['\n'] <+: rest) → Fits ⟨.literal, quote :: body⟩ rest
  /-- The text ends behind a backslash. -/
  | cutLiteral {quote : Char} {body : Text} : quote = '"' ∨ quote = '\'' → LiteralBody quote body →
      Fits ⟨.literal, quote :: (body ++ ['\\'])⟩ []

/-- The text is a row of segments, each in front of the ones behind it. -/
inductive IsRow : Text → List Segment → Prop
  | nil : IsRow [] []
  | cons {s : Segment} {rest : Text} {ss : List Segment} : Fits s rest → IsRow rest ss →
      IsRow (s.text ++ rest) (s :: ss)

/-! ## Lexemes -/

theorem opens_iff {t : Text} : Opens t ↔ lexeme? t ≠ none := by
  constructor
  · rintro (⟨u, rfl⟩ | ⟨u, rfl⟩ | ⟨u, rfl⟩ | ⟨u, rfl⟩) <;> simp [lexeme?]
  · intro h
    unfold lexeme? at h
    split at h
    · exact .inl ⟨_, rfl⟩
    · exact .inr (.inl ⟨_, rfl⟩)
    · exact .inr (.inr (.inl ⟨_, rfl⟩))
    · exact .inr (.inr (.inr ⟨_, rfl⟩))
    · exact absurd rfl h

theorem lineEnd_of_body {body rest : Text} (hbody : '\n' ∉ body) (hrest : rest = [] ∨ ['\n'] <+: rest) :
    lineEnd (body ++ rest) = (body, rest) := by
  have hplain : ∀ c ∈ body, (c != '\n') = true := by
    intro c hc
    simpa using ne_of_mem_of_not_mem hc hbody
  unfold lineEnd
  rw [List.takeWhile_append_of_pos hplain, List.dropWhile_append_of_pos hplain]
  obtain rfl | ⟨u, rfl⟩ := hrest <;> simp

/-- In front of the rest of a body, the body goes on. -/
theorem blockEnd_of_body {body rest : Text} (hbody : ¬ ['*', '/'] <:+: body) (hrest : rest.head? ≠ some '/') :
    blockEnd (body ++ rest) = (body ++ (blockEnd rest).1, (blockEnd rest).2) := by
  induction body with
  | nil => rfl
  | cons c body ih =>
    have hclosed : ∀ u, c = '*' → body ++ rest = '/' :: u → False := by
      rintro u rfl hu
      cases body with
      | nil => exact hrest (by rw [List.nil_append] at hu; rw [hu]; rfl)
      | cons d body =>
        obtain ⟨rfl, -⟩ := List.cons_eq_cons.1 hu
        exact hbody ⟨[], body, rfl⟩
    rw [List.cons_append, blockEnd.eq_3 c _ hclosed, ih fun h => hbody (h.trans (List.suffix_cons c body).isInfix)]
    rfl

theorem blockEnd_spec (t : Text) : ∃ body, ¬ ['*', '/'] <:+: body ∧
    ((blockEnd t).1 = body ++ ['*', '/'] ∨ (blockEnd t).1 = body ∧ (blockEnd t).2 = []) := by
  fun_induction blockEnd t with
  | case1 => exact ⟨[], by simp, .inr ⟨rfl, rfl⟩⟩
  | case2 t => exact ⟨[], by simp, .inl rfl⟩
  | case3 c t hne ih =>
    obtain ⟨body, hbody, h⟩ := ih
    refine ⟨c :: body, fun hinfix => ?_, ?_⟩
    · rcases List.infix_cons_iff.1 hinfix with ⟨u, hu⟩ | hinfix
      · obtain ⟨rfl, rfl⟩ := List.cons_eq_cons.1 hu
        -- The closing mark would have been seen here.
        have ht := append_blockEnd t
        rcases h with h | ⟨h, -⟩ <;> exact hne _ rfl (by rw [← ht, h]; rfl)
      · exact hbody hinfix
    · rcases h with h | ⟨h, hnil⟩
      · exact .inl (by rw [h]; rfl)
      · exact .inr ⟨by rw [h], hnil⟩

theorem literalEnd_of_body {quote : Char} {body : Text} (hbody : LiteralBody quote body) (rest : Text) :
    literalEnd quote (body ++ rest) = (body ++ (literalEnd quote rest).1, (literalEnd quote rest).2) := by
  induction hbody with
  | nil => rfl
  | @plain c t hb hn hq _ ih =>
    rw [List.cons_append, literalEnd.eq_4 quote c _ (fun h => absurd h hb) (fun _ _ h => absurd h hb), if_neg hn,
      if_neg hq, ih]
    rfl
  | escaped _ ih => simp [literalEnd, ih]

theorem literalEnd_spec (quote : Char) (t : Text) : ∃ body, LiteralBody quote body ∧
    ((literalEnd quote t).1 = body ++ [quote] ∨
      (literalEnd quote t).1 = body ∧ ((literalEnd quote t).2 = [] ∨ ['\n'] <+: (literalEnd quote t).2) ∨
      (literalEnd quote t).1 = body ++ ['\\'] ∧ (literalEnd quote t).2 = []) := by
  fun_induction literalEnd quote t with
  | case1 => exact ⟨[], .nil, .inr (.inl ⟨rfl, .inl rfl⟩)⟩
  | case2 => exact ⟨[], .nil, .inr (.inr ⟨rfl, rfl⟩)⟩
  | case3 c t ih =>
    obtain ⟨body, hbody, h⟩ := ih
    refine ⟨'\\' :: c :: body, .escaped hbody, ?_⟩
    simpa using h
  | case4 t => exact ⟨[], .nil, .inr (.inl ⟨rfl, .inr ⟨t, rfl⟩⟩)⟩
  | case5 t => exact ⟨[], .nil, .inl rfl⟩
  | case6 c t h1 h2 hn hc ih =>
    have hb := ne_backslash_of_not h1 h2
    obtain ⟨body, hbody, h⟩ := ih
    refine ⟨c :: body, .plain hb hn hc hbody, ?_⟩
    simpa using h

/-- **A lexeme fits**, and what fits and is no code is the lexeme that opens there. -/
theorem fits_of_lexeme? {t rest : Text} {s : Segment} (h : lexeme? t = some (s, rest)) : Fits s rest := by
  obtain ⟨u, -, rfl, rfl⟩ | ⟨u, -, rfl, rfl⟩ | ⟨quote, u, hq, -, rfl, rfl⟩ := lexeme?_eq_some h
  · exact .lineComment (lineEnd_spec u).1 (lineEnd_spec u).2
  · obtain ⟨body, hbody, hend | ⟨hend, hrest⟩⟩ := blockEnd_spec u
    · rw [hend]
      exact .blockComment hbody
    · rw [hend, hrest]
      exact .openComment hbody
  · obtain ⟨body, hbody, hend | ⟨hend, hrest⟩ | ⟨hend, hrest⟩⟩ := literalEnd_spec quote u
    · rw [hend]
      exact .literal hq hbody
    · rw [hend]
      exact .openLiteral hq hbody hrest
    · rw [hend, hrest]
      exact .cutLiteral hq hbody

theorem lexeme?_of_fits {rest : Text} {s : Segment} (h : Fits s rest) (hkind : s.kind ≠ .code) :
    lexeme? (s.text ++ rest) = some (s, rest) := by
  have hliteral {quote : Char} (hq : quote = '"' ∨ quote = '\'') {u end_ rest : Text}
      (hend : literalEnd quote u = (end_, rest)) : lexeme? (quote :: u) = some (⟨.literal, quote :: end_⟩, rest) := by
    rcases hq with rfl | rfl <;> simp [lexeme?, hend]
  cases h with
  | code => exact absurd rfl hkind
  | lineComment hbody hrest => simp [lexeme?, lineEnd_of_body hbody hrest]
  | @blockComment body rest hbody =>
    have hend : blockEnd (body ++ '*' :: '/' :: rest) = (body ++ ['*', '/'], rest) := by
      rw [blockEnd_of_body hbody (by simp)]
      rfl
    simp [lexeme?, hend]
  | @openComment body hbody =>
    have hend := blockEnd_of_body hbody (show ([] : Text).head? ≠ some '/' by simp)
    rw [List.append_nil, blockEnd, List.append_nil] at hend
    simp [lexeme?, hend]
  | @literal quote body rest hq hbody =>
    have hclose : literalEnd quote (quote :: rest) = ([quote], rest) := by
      rcases hq with rfl | rfl <;> simp [literalEnd]
    have hend := literalEnd_of_body hbody (quote :: rest)
    rw [hclose] at hend
    simpa using hliteral hq hend
  | @openLiteral quote body rest hq hbody hrest =>
    have hstop : literalEnd quote rest = ([], rest) := by
      obtain rfl | ⟨u, rfl⟩ := hrest
      · rfl
      · simp [literalEnd]
    have hend := literalEnd_of_body hbody rest
    rw [hstop, List.append_nil] at hend
    exact hliteral hq hend
  | @cutLiteral quote body hq hbody =>
    have hend := literalEnd_of_body hbody ['\\']
    simpa [literalEnd] using hliteral hq hend

/-! ## Code -/

theorem codeBefore_iff {u rest : Text} :
    CodeBefore u rest ↔ ∀ x y, u = x ++ y → y ≠ [] → ¬ Opens (y ++ rest) := by
  constructor
  · rintro h x y rfl hy
    cases y with
    | nil => exact absurd rfl hy
    | cons c y =>
      have hnone : lexeme? (c :: (y ++ rest)) = none := (codeBefore_append.1 h).2.1
      rw [opens_iff, not_not]
      exact hnone
  · intro h
    induction u with
    | nil => trivial
    | cons c u ih =>
      have hnone := h [] (c :: u) rfl (by simp)
      rw [opens_iff, not_not] at hnone
      exact ⟨hnone, ih fun x y hu hy => h (c :: x) y (by rw [hu]; rfl) hy⟩

/-- In front of what is no code, a character of code is a segment of its own. -/
theorem consCode_of_opens {y : Text} (hy : y = [] ∨ Opens y) (c : Char) :
    consCode c (segments y) = ⟨.code, [c]⟩ :: segments y := by
  obtain rfl | hopens := hy
  · simp [segments, consCode]
  · obtain ⟨⟨s, rest⟩, hs⟩ := Option.ne_none_iff_exists'.1 (opens_iff.1 hopens)
    obtain ⟨hkind, -, -⟩ := parted_lexeme? hs
    obtain ⟨kind, u⟩ := s
    rw [segments_of_lexeme? hs]
    cases kind <;> simp_all [consCode]

theorem segments_of_codeBefore {x y : Text} (hx : x ≠ []) (h : CodeBefore x y) (hy : y = [] ∨ Opens y) :
    segments (x ++ y) = ⟨.code, x⟩ :: segments y := by
  induction x with
  | nil => exact absurd rfl hx
  | cons c x ih =>
    rw [List.cons_append, segments_of_code h.1]
    cases x with
    | nil => exact consCode_of_opens hy c
    | cons d x => rw [ih (by simp) h.2, consCode]

/-! ## Rows -/

theorem isRow_segments (t : Text) : IsRow t (segments t) := by
  induction t using segments_induction with
  | nil => rw [show segments [] = [] by rw [segments]]; exact .nil
  | run x y hx hcode hy hsegments ih =>
    rw [hsegments]
    refine .cons (.code hx (codeBefore_iff.1 hcode) (hy.imp_right ?_)) ih
    rintro ⟨s, rest, h⟩
    exact opens_iff.2 (by rw [h]; simp)
  | lexeme t s rest h hsegments ih =>
    rw [hsegments, ← source_lexeme? h]
    exact .cons (fits_of_lexeme? h) ih

theorem eq_segments_of_isRow {t : Text} {ss : List Segment} (h : IsRow t ss) : ss = segments t := by
  induction h with
  | nil => rw [segments]
  | @cons s rest ss hs _ ih =>
    by_cases hkind : s.kind = .code
    · cases hs with
      | code hu hcode hrest => rw [segments_of_codeBefore hu (codeBefore_iff.2 hcode) hrest, ih]
      | _ => cases hkind
    · rw [segments_of_lexeme? (lexeme?_of_fits hs hkind), ih]

/-- **The text is a row of segments in one way only**, and that is how it is cut. -/
theorem isRow_iff {t : Text} {ss : List Segment} : IsRow t ss ↔ ss = segments t := by
  constructor
  · exact eq_segments_of_isRow
  · rintro rfl
    exact isRow_segments t

end JavaMend.Java
