import JavaMend.Proofs.Java.CutSegments
import JavaMend.Proofs.Java.StrippedOnce
import JavaMend.Proofs.Java.Tokens

/-!
# `Proofs.Java.KeptTokens` — what stripping touches

Stripping a text takes synthetic comments out and leaves nothing in their place, so code meets that they kept apart; and it
takes white space from the end of the lines on which they stood, whatever it is the end of. The tokens and the other
comments of the text stay exactly if no token goes over a place where code meets, and no such line ends in a literal or a
comment with white space.

## Contents
- **What stays.** `javaTokens`, `plainComments`, `TouchesNothingElse`.
- **Code that meets.** `KeepsApart`; `tokens_plainText_iff`.
- **Literals among tokens.** `literals_eq_filter`.
- **Cut segments.** `TrimsCode`; `trimsIn_of_stripSynthetic`.
- **The condition.** `touchesNothingElse_iff`, `not_touchesNothingElse_comment`.
-/

namespace JavaMend.Java

open JavaMend Text

/-! ## What stays -/

/-- The tokens of a text: those of its code, and its literals. A comment parts tokens. -/
def javaTokens (t : Text) : List Text := symbols lexemes (segments t)

/-- The comments of a text that hold no marker. -/
def plainComments (t : Text) : List Text := notes (plain (segments t))

/-- Stripping a text leaves its tokens and the comments without a marker as they are. -/
def TouchesNothingElse (t : Text) : Prop :=
  javaTokens (stripSynthetic t) = javaTokens t ∧ plainComments (stripSynthetic t) = plainComments t

instance (t : Text) : Decidable (TouchesNothingElse t) := inferInstanceAs (Decidable (_ ∧ _))

/-! ## Code that meets -/

/-- Each stretch of code keeps its tokens in front of the code that comes next when the synthetic comments go. -/
def KeepsApart : List Segment → Prop
  | []      => True
  | s :: ss =>
    (s.kind = .code → lexemes (s.text ++ (joined (plain ss)).rest) = lexemes s.text ++ lexemes (joined (plain ss)).rest)
      ∧ KeepsApart ss

theorem tokens_plainText (t : Text) : javaTokens (plainText t) =
    lexemes (joined (plain (segments t))).rest ++ symbols lexemes (joined (plain (segments t))).later := by
  rw [javaTokens, segments_plainText, Parts.fromCode, symbols_shown lexemes_nil, symbols_cons]
  rfl

theorem symbols_joined_iff (ss : List Segment) :
    lexemes (joined (plain ss)).rest ++ symbols lexemes (joined (plain ss)).later = symbols lexemes ss
      ↔ KeepsApart ss := by
  induction ss with
  | nil => simp [plain, joined, lexemes_nil, symbols, KeepsApart]
  | cons s ss ih =>
    rw [symbols_cons, KeepsApart, ← ih]
    cases hs : isSynthetic s with
    | true =>
      have hcomment := (Bool.and_eq_true_iff.1 (isSynthetic_eq s ▸ hs)).1
      have hnone : symbolsOf lexemes s = [] := by
        rw [← List.append_nil (symbolsOf lexemes s)]
        exact symbols_cons_comment hcomment []
      rw [plain_cons_synthetic hs, hnone, List.nil_append]
      exact (and_iff_right fun hcode => absurd hcode (isComment_iff.1 hcomment).1).symm
    | false =>
      rw [plain_cons_of_not hs]
      by_cases hcode : s.kind = .code
      · obtain ⟨kind, x⟩ := s
        obtain rfl : kind = .code := hcode
        rw [joined_code]
        constructor
        · intro h
          have hclean := lexemes_append_of_prefix h
          rw [hclean, List.append_assoc] at h
          exact ⟨fun _ => hclean, List.append_cancel_left h⟩
        · rintro ⟨hclean, hrest⟩
          rw [hclean rfl, List.append_assoc, hrest]
          rfl
      · rw [joined_lexeme hcode, symbols_cons, symbols_cons, lexemes_nil, List.nil_append, List.append_cancel_left_eq]
        exact (and_iff_right fun h => absurd h hcode).symm

/-- **Without its synthetic comments a text keeps its tokens** exactly if code that meets keeps them. -/
theorem tokens_plainText_iff (t : Text) : javaTokens (plainText t) = javaTokens t ↔ KeepsApart (segments t) := by
  rw [tokens_plainText, javaTokens, symbols_joined_iff]

/-! ## Literals among tokens -/

/-- The text opens with a quote. -/
def opensQuoted (p : Text) : Bool := p.head?.any isQuote

theorem not_isQuote_of_codeBefore {x y : Text} (h : CodeBefore x y) : ∀ c ∈ x, isQuote c = false := by
  induction x with
  | nil => exact fun c hc => nomatch hc
  | cons d x ih =>
    obtain ⟨-, hquote, hapostrophe⟩ := lexeme?_eq_none_iff.1 h.1
    refine List.forall_mem_cons.2 ⟨Bool.eq_false_iff.2 fun hd => ?_, ih h.2⟩
    exact (isQuote_iff.1 hd).elim hquote hapostrophe

/-- A lexeme that is a token opens with a quote, and is a literal. -/
theorem filter_symbolsOf_lexeme? {t rest : Text} {s : Segment} (h : lexeme? t = some (s, rest)) :
    (symbolsOf lexemes s).filter opensQuoted = texts (· = .literal) [s] := by
  obtain ⟨u, -, rfl, -⟩ | ⟨u, -, rfl, -⟩ | ⟨q, u, hq, -, rfl, -⟩ := lexeme?_eq_some h
  · rfl
  · rfl
  · rcases hq with rfl | rfl <;> rfl

/-- **The literals are the tokens that open with a quote.** -/
theorem literals_eq_filter (t : Text) : literals t = (javaTokens t).filter opensQuoted := by
  induction t using segments_induction with
  | nil => simp [literals, javaTokens, symbols, segments]
  | run x y hne hcode hy hsegments ih =>
    have hnone : (lexemes x).filter opensQuoted = [] := by
      refine List.filter_eq_nil_iff.2 fun p hp hquoted => ?_
      obtain ⟨c, hc, hquote⟩ := Option.any_eq_true _ _ |>.1 hquoted
      have hmem := (mem_of_mem_lexemes hp).2 c (List.mem_of_mem_head? hc)
      rw [not_isQuote_of_codeBefore hcode c hmem] at hquote
      cases hquote
    have htokens : javaTokens (x ++ y) = lexemes x ++ javaTokens y := by
      rw [javaTokens, hsegments, symbols_cons]
      rfl
    rw [htokens, List.filter_append, hnone, List.nil_append, ← ih, literals_eq_texts, hsegments,
      texts_cons_of_neg rfl]
    rfl
  | lexeme t s rest hs hsegments ih =>
    have htexts (ss : List Segment) : texts (· = .literal) (s :: ss) =
        texts (· = .literal) [s] ++ texts (· = .literal) ss := by
      rw [texts, texts, texts, ← List.map_append, ← List.filter_append]
      rfl
    rw [javaTokens, literals_eq_texts, hsegments, symbols_cons, List.filter_append, filter_symbolsOf_lexeme? hs, htexts,
      ← literals_eq_texts, ih, javaTokens]

/-! ## Cut segments -/

/-- White space goes from code only. -/
def TrimsCode (t : Text) : Prop := TrimsIn (· = .code) .code (markedLines (segments t))

/-- **No line was cut in a segment of some kinds** if these are the same without the synthetic comments and in the stripped
    text. -/
theorem trimsIn_of_stripSynthetic {K : SegmentKind → Bool} (hK : K .code = false) {t : Text}
    (hliteral : K .literal = true ∨ TrimsIn (· ≠ .literal) .code (markedLines (segments t)))
    (h : texts K (segments (stripSynthetic t)) = texts K (segments (plainText t))) :
    TrimsIn (fun k => K k = false) .code (markedLines (segments t)) := by
  obtain ⟨ms, hms, hlines, hdrops, hplain, hstripped⟩ := exists_tidied_lines t
  rw [← hplain, ← hstripped] at h
  exact hms.trimsIn_iff.1 (trimsIn_of_texts hK hlines hdrops (hliteral.imp_right hms.trimsIn_iff.2) h.symm)

/-- If the tokens stay, no literal is cut. -/
theorem trimsIn_of_tokens {t : Text} (h : javaTokens (stripSynthetic t) = javaTokens t) :
    TrimsIn (· ≠ .literal) .code (markedLines (segments t)) := by
  have hliterals : literals (stripSynthetic t) = literals (plainText t) := by
    rw [literals_eq_filter, h, ← literals_eq_filter, literals_plainText]
  have htrims := @trimsIn_of_stripSynthetic (· = .literal) rfl t (.inl rfl) hliterals
  exact htrims.mono fun k hk => by simpa using hk

/-- Where no literal is cut, stripping leaves the tokens as they are without the synthetic comments. -/
theorem tokens_stripSynthetic {t : Text} (h : TrimsIn (· ≠ .literal) .code (markedLines (segments t))) :
    javaTokens (stripSynthetic t) = javaTokens (plainText t) :=
  (@alike_stripSynthetic lexemes (fun _ _ => True) _ parting_lexemes (fun _ => trivial) (fun _ _ _ _ _ => trivial)
    (fun _ _ _ _ _ _ _ _ => trivial) (by simp) t h).1

/-- Where no literal is cut, the comments that stay are those of the stripped text. -/
theorem plainComments_stripSynthetic {t : Text} (h : TrimsIn (· ≠ .literal) .code (markedLines (segments t))) :
    plainComments (stripSynthetic t) = notes (segments (stripSynthetic t)) := by
  have hplain : plain (segments (stripSynthetic t)) = segments (stripSynthetic t) :=
    List.filter_eq_self.2 fun s hs => by simp [not_isSynthetic_stripSynthetic h s hs]
  rw [plainComments, hplain]

/-! ## The condition -/

/-- **Stripping touches nothing else** exactly if code that meets keeps its tokens and white space goes from code only. -/
theorem touchesNothingElse_iff (t : Text) : TouchesNothingElse t ↔ KeepsApart (segments t) ∧ TrimsCode t := by
  have hcomments : notes (segments (plainText t)) = plainComments t := texts_plainText rfl t
  constructor
  · rintro ⟨htokens, hplain⟩
    have hliteral := trimsIn_of_tokens htokens
    refine ⟨(tokens_plainText_iff t).1 ((tokens_stripSynthetic hliteral).symm.trans htokens), ?_⟩
    rw [plainComments_stripSynthetic hliteral, ← hcomments] at hplain
    have hcomment := trimsIn_of_stripSynthetic rfl (.inr hliteral) hplain
    refine (hliteral.and hcomment).mono ?_
    rintro k ⟨hk, hnot⟩
    cases k <;> simp_all [SegmentKind.isComment]
  · rintro ⟨hapart, htrims⟩
    have hliteral : TrimsIn (· ≠ .literal) .code (markedLines (segments t)) := htrims.mono fun k hk => by simp [hk]
    refine ⟨(tokens_stripSynthetic hliteral).trans ((tokens_plainText_iff t).2 hapart), ?_⟩
    have hnotes := (@alike_stripSynthetic lexemes (· = ·) _ parting_lexemes (fun _ => rfl) (fun _ _ _ => Eq.trans)
      (fun k hk hcode => absurd hk hcode) (by simp) t htrims).2
    rw [List.forall₂_eq_eq_eq] at hnotes
    rw [plainComments_stripSynthetic hliteral, ← hnotes, hcomments]

/-- Two tokens are joined if nothing but a synthetic comment stood between them. -/
example : javaTokens (stripSynthetic (text "int/* $FF: x */a;")) = [text "inta", text ";"] := by decide +kernel

/-- A synthetic comment that another comment follows, which goes on in the next line. -/
def sharedLine : Text := text "/* $FF: a */ /* keep   \n more */\n"

/-- **A comment is altered** if a synthetic one stood on the line on which it goes on with white space. -/
theorem not_touchesNothingElse_comment : ¬ ∀ t : Text, '\r' ∉ t → TouchesNothingElse t := fun h =>
  absurd (h sharedLine (by decide +kernel)) (by decide +kernel)

end JavaMend.Java
