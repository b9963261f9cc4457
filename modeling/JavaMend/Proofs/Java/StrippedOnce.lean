import JavaMend.Proofs.Java.TouchedLines

/-!
# `Proofs.Java.StrippedOnce` — one pass removes every synthetic comment

What stays of a text is read as its other segments in a row, up to white space at the end of some lines. Where such white
space lies outside literals no comment gets or loses a marker by that, so no comment that stays is a synthetic one, and
a second pass finds nothing to do.

## Contents
- **Markers.** `hasMarker`; `hasMarker_blank`, `hasMarker_endsLine`.
- **Plain comments.** `texts_plainText`, `literals_plainText`; `not_isSynthetic_stripSynthetic`.
- **Closed literals.** `trimsIn_of_settled`; `stripSynthetic_complete`.
-/

namespace JavaMend.Java

open JavaMend Text

/-! ## Markers -/

/-- The text holds the marker of a decompiler. -/
def hasMarker (x : Text) : Bool := markers.any fun m => contains m x

theorem isSynthetic_eq (s : Segment) : isSynthetic s = (s.kind.isComment && hasMarker s.text) := rfl

/-- A text is contained in one of two others if the character between them is not in it. -/
theorem contains_append_cons {needle : Text} {q : Char} (hne : needle ≠ []) (hq : q ∉ needle) (x y : Text) :
    contains needle (x ++ q :: y) = (contains needle x || contains needle y) := by
  have hstarts (t : Text) : startsWith needle (t ++ q :: y) = startsWith needle t := by
    rw [startsWith, dropPrefix?_append_cons hq, Option.isSome_map, startsWith]
  have hnil : startsWith needle [] = false ∧ contains needle [] = false := by
    obtain ⟨c, w, rfl⟩ := List.exists_cons_of_ne_nil hne
    exact ⟨rfl, rfl⟩
  induction x with
  | nil =>
    have hstart := hstarts []
    rw [List.nil_append, hnil.1] at hstart
    rw [List.nil_append, hnil.2, contains, hstart]
  | cons c x ih =>
    rw [List.cons_append, contains, contains, ih, ← List.cons_append, hstarts, Bool.or_assoc]

/-- White space stands in no marker. -/
theorem hasMarker_blank {c : Char} (hc : isBlank c = true) (x y : Text) :
    hasMarker (x ++ c :: y) = (hasMarker x || hasMarker y) := by
  have hmarkers : ∀ m ∈ markers, m ≠ [] ∧ c ∉ m := by
    intro m hm
    have hall : markers.all (fun m => !m.isEmpty && m.all fun d => !isBlank d) = true := by decide
    have hm := List.all_eq_true.1 hall m hm
    rw [Bool.and_eq_true, List.all_eq_true] at hm
    refine ⟨by simpa using hm.1, fun hmem => ?_⟩
    have hblank := hm.2 c hmem
    rw [hc] at hblank
    cases hblank
  unfold hasMarker
  rw [Bool.eq_iff_iff, Bool.or_eq_true, List.any_eq_true, List.any_eq_true, List.any_eq_true]
  constructor
  · rintro ⟨m, hm, hin⟩
    rw [contains_append_cons (hmarkers m hm).1 (hmarkers m hm).2, Bool.or_eq_true] at hin
    exact hin.imp (fun h => ⟨m, hm, h⟩) fun h => ⟨m, hm, h⟩
  · rintro (⟨m, hm, hin⟩ | ⟨m, hm, hin⟩) <;>
    exact ⟨m, hm, by rw [contains_append_cons (hmarkers m hm).1 (hmarkers m hm).2, hin]; simp⟩

theorem hasMarker_nil : hasMarker [] = false := by decide

theorem hasMarker_cons_blank {c : Char} (hc : isBlank c = true) (y : Text) : hasMarker (c :: y) = hasMarker y := by
  have hparts := hasMarker_blank hc [] y
  rwa [List.nil_append, hasMarker_nil, Bool.false_or] at hparts

/-- **White space at the end of a line** neither makes nor parts a marker. -/
theorem hasMarker_endsLine {b r : Text} (hb : ∀ c ∈ b, isBlank c = true) (hr : EndsLine r) (x : Text) :
    hasMarker (x ++ (b ++ r)) = hasMarker (x ++ r) := by
  have hblanks (y : Text) : hasMarker (b ++ y) = hasMarker y := by
    induction b with
    | nil => rfl
    | cons c b ih =>
      obtain ⟨hc, hb⟩ := List.forall_mem_cons.1 hb
      rw [List.cons_append, hasMarker_cons_blank hc, ih hb]
  have hparts : hasMarker (x ++ r) = (hasMarker x || hasMarker r) := by
    cases r with
    | nil => rw [List.append_nil, hasMarker_nil, Bool.or_false]
    | cons c r =>
      obtain rfl : c = '\n' := by simpa [EndsLine] using hr
      rw [hasMarker_blank isBlank_newline.1, hasMarker_cons_blank isBlank_newline.1]
  cases b with
  | nil => rfl
  | cons c b =>
    have hc := hb c List.mem_cons_self
    have hrest := hblanks r
    rw [List.cons_append, hasMarker_cons_blank hc] at hrest
    rw [List.cons_append, hasMarker_blank hc, hrest, hparts]

/-! ## Plain comments -/

/-- The segments that are no code stay when the synthetic comments go. -/
theorem texts_plainText {K : SegmentKind → Bool} (hcode : K .code = false) (t : Text) :
    texts K (segments (plainText t)) = texts K (plain (segments t)) := by
  rw [segments_plainText, Parts.fromCode, texts_shown hcode, texts_cons_of_neg hcode, texts_joined hcode]

/-- Only comments go. -/
theorem texts_plain {K : SegmentKind → Bool} (hcomment : ∀ k, k.isComment = true → K k = false) (ss : List Segment) :
    texts K (plain ss) = texts K ss := by
  induction ss with
  | nil => rfl
  | cons s ss ih =>
    cases hs : isSynthetic s with
    | true =>
      rw [isSynthetic_eq, Bool.and_eq_true] at hs
      rw [plain_cons_synthetic (by rw [isSynthetic_eq, hs.1, hs.2]; rfl), texts_cons_of_neg (hcomment _ hs.1), ih]
    | false =>
      rw [plain_cons_of_not hs]
      cases hK : K s.kind with
      | false => rw [texts_cons_of_neg hK, texts_cons_of_neg hK, ih]
      | true => rw [texts_cons_of_pos hK, texts_cons_of_pos hK, ih]

/-- **The literals stay** when the synthetic comments go. -/
theorem literals_plainText (t : Text) : literals (plainText t) = literals t := by
  rw [literals_eq_texts, literals_eq_texts, texts_plainText rfl]
  exact texts_plain (fun k hk => by simpa using (isComment_iff.1 hk).2) (segments t)

/-- None of the segments is a synthetic comment exactly if none of the comments holds a marker. -/
theorem forall_not_isSynthetic_iff (ss : List Segment) :
    (∀ s ∈ ss, isSynthetic s = false) ↔ ∀ c ∈ notes ss, hasMarker c = false := by
  simp only [notes, texts, List.mem_map, List.mem_filter, isSynthetic_eq, Bool.and_eq_false_iff]
  constructor
  · rintro h c ⟨s, ⟨hs, hcomment⟩, rfl⟩
    exact (h s hs).resolve_left (by simp [hcomment])
  · intro h s hs
    cases hcomment : s.kind.isComment with
    | false => exact .inl rfl
    | true => exact .inr (h s.text ⟨s, ⟨hs, hcomment⟩, rfl⟩)

/-- **No synthetic comment stays**, if no white space goes from a literal. -/
theorem not_isSynthetic_stripSynthetic {t : Text} (h : TrimsIn (· ≠ .literal) .code (markedLines (segments t))) :
    ∀ s ∈ segments (stripSynthetic t), isSynthetic s = false := by
  have halike := @alike_stripSynthetic (fun _ => []) (fun x y => hasMarker x = hasMarker y) _
    ⟨rfl, fun _ _ _ _ => rfl⟩ (fun _ => rfl) (fun _ _ _ => Eq.trans)
    (fun _ _ _ x b r hb hr => hasMarker_endsLine hb hr x) (by simp) t h
  have hmarkers : (notes (segments (stripSynthetic t))).map hasMarker = (notes (plain (segments t))).map hasMarker := by
    have hnotes : notes (segments (plainText t)) = notes (plain (segments t)) := texts_plainText rfl t
    rw [← hnotes, eq_comm, ← List.forall₂_eq_eq_eq, List.forall₂_map_left_iff, List.forall₂_map_right_iff]
    exact halike.2
  have hplain : ∀ c ∈ notes (plain (segments t)), hasMarker c = false :=
    (forall_not_isSynthetic_iff _).1 fun s hs => by simpa using (List.mem_filter.1 hs).2
  refine (forall_not_isSynthetic_iff _).2 fun c hc => ?_
  have hmem := List.mem_map_of_mem (f := hasMarker) hc
  rw [hmarkers] at hmem
  obtain ⟨d, hd, hsame⟩ := List.mem_map.1 hmem
  rw [← hsame, hplain d hd]

/-! ## Closed literals -/

/-- Where every line ends outside literals, no white space goes from one. -/
theorem trimsIn_of_settled {m : Mode} {ls : List (Text × Bool)} (h : SettledLines m (ls.map Prod.fst)) :
    TrimsIn (· ≠ .literal) m ls := by
  induction ls generalizing m with
  | nil => trivial
  | cons line ls ih =>
    obtain ⟨l, marked⟩ := line
    refine ⟨fun _ => .inr fun hliteral => ?_, ih h.2⟩
    have hsettled := h.1
    cases hmode : finish m l none <;> simp_all [Mode.kind, Mode.inLiteral]

/-- **Stripping is complete in one pass**: where every literal is closed on its own line, no synthetic comment stays, and
    stripping again changes nothing. -/
theorem stripSynthetic_complete {t : Text} (h : ∀ l ∈ literals t, IsClosed l) :
    (∀ s ∈ segments (stripSynthetic t), isSynthetic s = false)
      ∧ stripSynthetic (stripSynthetic t) = stripSynthetic t := by
  have hlines := map_fst_markedLines (segments t)
  have hclosed : ∀ l ∈ (litFrom .code (unlines (splitOn '\n' (plainText t)) false)).2, IsClosed l := by
    have htext : unlines (splitOn '\n' (plainText t)) false = plainText t := by
      simp [unlines, joinWith_splitOn]
    rwa [htext, ← literals_eq, literals_plainText]
  have hsettled : SettledLines .code ((markedLines (segments t)).map Prod.fst) := by
    rw [hlines]
    exact settledLines_of_closed rfl (fun l => newline_not_mem_splitOn) hclosed
  have hnone := not_isSynthetic_stripSynthetic (trimsIn_of_settled hsettled)
  exact ⟨hnone, stripSynthetic_of_none hnone⟩

/-- A class with a remark that shares its line with code and a literal. -/
def remarkedField : Text := text "class A \x7b // $VF: compiled\n   String s = /* $VF: 1 */ \"//\"; /* $VF: 2 */\n\x7d\n"

theorem stripSynthetic_complete_remarked :
    (∀ s ∈ segments (stripSynthetic remarkedField), isSynthetic s = false)
      ∧ stripSynthetic (stripSynthetic remarkedField) = stripSynthetic remarkedField :=
  stripSynthetic_complete (by decide +kernel)

end JavaMend.Java
