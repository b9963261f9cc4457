import Mathlib.Data.List.Forall2
import Mathlib.Data.List.TakeWhile
import JavaMend.Java.Imports
import JavaMend.Proofs.Java.Finding

/-!
# `Proofs.Java.Shortening` — what shortening does to the lines of a text

Shortening takes packages out of a text and leaves everything else where it is: `Drops` says which characters can go,
and that an upper-case letter stands where some went. So a text keeps its lines, and each line keeps how it looks at
its ends: what was blank, a header line or an import still is.

## Contents
- **Dropping.** `Drops`; `drops_mapCode`, `drops_shorten`.
- **Length.** `length_shorten_add_le`.
- **Lines.** `Drops.splitOn`.
- **Ends.** `Drops.isBlankLine`, `Drops.trim`, `Drops.startsWith`.
- **Header lines.** `Drops.isImport`, `Drops.isHeaderLine`.
-/

namespace JavaMend.Java

open JavaMend Text

/-! ## Dropping -/

/-- The second text is the first without some runs of package characters, each in front of an upper-case letter. -/
inductive Drops : Text → Text → Prop
  | nil : Drops [] []
  | keep (c : Char) {t s : Text} : Drops t s → Drops (c :: t) (c :: s)
  | drop {c u : Char} {t s : Text} : inPackage c = true → isAsciiUpper u = true → Drops t (u :: s) →
      Drops (c :: t) (u :: s)

namespace Drops

@[refl] theorem refl (t : Text) : Drops t t := by
  induction t with
  | nil => exact .nil
  | cons c t ih => exact .keep c ih

theorem append {t s t' s' : Text} (h : Drops t s) (h' : Drops t' s') : Drops (t ++ t') (s ++ s') := by
  induction h with
  | nil => exact h'
  | keep c _ ih => exact .keep c ih
  | drop hc hu _ ih => exact .drop hc hu ih

theorem flatMap {α : Type} {as : List α} {f g : α → Text} (h : ∀ a ∈ as, Drops (f a) (g a)) :
    Drops (as.flatMap f) (as.flatMap g) := by
  induction as with
  | nil => exact .nil
  | cons a as ih =>
    rw [List.flatMap_cons, List.flatMap_cons]
    exact (h a List.mem_cons_self).append (ih fun b hb => h b (List.mem_cons_of_mem a hb))

theorem length_le {t s : Text} (h : Drops t s) : s.length ≤ t.length := by
  induction h with
  | nil => exact Nat.le_refl 0
  | keep c _ ih => simpa using ih
  | drop _ _ _ ih =>
    simp only [List.length_cons] at ih ⊢
    omega

/-- A whole run can go. -/
theorem dropAll {w t s : Text} {u : Char} (hw : ∀ c ∈ w, inPackage c = true) (hu : isAsciiUpper u = true)
    (h : Drops t (u :: s)) : Drops (w ++ t) (u :: s) := by
  induction w with
  | nil => exact h
  | cons c w ih => exact .drop (hw c List.mem_cons_self) hu (ih fun d hd => hw d (List.mem_cons_of_mem c hd))

end Drops

/-- The package of a name can go. -/
theorem drops_full {q : Qualified} (h : q.Proper) : Drops q.full q.name := by
  obtain ⟨u, n, hname, hu⟩ := h.opens
  have hw : ∀ c ∈ q.package ++ ['.'], inPackage c = true := by
    intro c hc
    rcases List.mem_append.1 hc with hc | hc
    · exact h.package c hc
    · rw [List.mem_singleton.1 hc]
      decide
  have := Drops.dropAll hw hu (.refl (u :: n))
  simpa [Qualified.full, hname] using this

/-- What a hit gives way to when the names of a text are shortened. -/
def written (short : Qualified → Bool) (found : Text) (q : Qualified) : Text := if short q then q.name else found

/-- What a piece of a text gives way to. -/
def writtenPiece (short : Qualified → Bool) : Piece Qualified → Text
  | .plain c => [c]
  | .hit m q => written short m q

theorem substitute_written (short : Qualified → Bool) (t : Text) :
    substitute findQualified (written short) t = (pieces findQualified none t).flatMap (writtenPiece short) := by
  unfold substitute
  congr 1
  funext p
  cases p <;> rfl

/-- A hit was found somewhere. -/
theorem exists_find_of_mem_pieces {α : Type} {find : Finder α} {before : Option Char} {t m : Text} {a : α}
    (h : Piece.hit m a ∈ pieces find before t) : ∃ before' t', find before' t' = some (m, a) := by
  fun_induction pieces find before t with
  | case1 => simp at h
  | case2 before c t hnone ih => exact ih (by simpa using h)
  | case3 before c t m' a' hsome ih =>
    rcases List.mem_cons.1 h with heq | h
    · cases heq
      exact ⟨before, c :: t, hsome⟩
    · exact ih h

/-- Shortening names drops their packages. -/
theorem drops_substitute (short : Qualified → Bool) (t : Text) :
    Drops t (substitute findQualified (written short) t) := by
  rw [substitute_written]
  conv => lhs; rw [← source_pieces faithful_findQualified none t]
  refine Drops.flatMap fun p hp => ?_
  cases p with
  | plain c => exact .refl [c]
  | hit m q =>
    obtain ⟨before, t', hfind⟩ := exists_find_of_mem_pieces hp
    obtain ⟨rfl, -, hproper⟩ := findQualified_spec hfind
    simp only [Piece.source, writtenPiece, written]
    split
    · exact drops_full hproper
    · exact .refl q.full

theorem drops_mapCode {f : Text → Text} (hf : ∀ t, Drops t (f t)) (t : Text) : Drops t (mapCode f t) := by
  conv => lhs; rw [← source_segments t]
  refine Drops.flatMap fun s _ => ?_
  split
  · exact hf s.text
  · exact .refl s.text

/-- **Shortening drops packages** and nothing else. -/
theorem drops_shorten (b : Bindings) (body : Text) : Drops body (shorten b body).1 :=
  drops_mapCode (drops_substitute (usable b (qualifiedNames body))) body

/-! ## Length -/

theorem length_written_add_le (short : Qualified → Bool) {ps : List (Piece Qualified)}
    (h : ∀ m q, Piece.hit m q ∈ ps → m = q.full) :
    (ps.flatMap (writtenPiece short)).length + (ps.filterMap Piece.value?).countP short
      ≤ (ps.flatMap Piece.source).length := by
  induction ps with
  | nil => simp
  | cons p ps ih =>
    have ih := ih fun m q hq => h m q (List.mem_cons_of_mem p hq)
    rw [List.flatMap_cons, List.flatMap_cons, List.length_append, List.length_append]
    cases p with
    | plain c =>
      rw [List.filterMap_cons_none rfl]
      simp only [writtenPiece, Piece.source]
      omega
    | hit m q =>
      have hlt : q.name.length < m.length := by
        rw [h m q List.mem_cons_self, Qualified.full, List.length_append, List.length_cons]
        omega
      rw [show (Piece.hit m q :: ps).filterMap Piece.value? = q :: ps.filterMap Piece.value? from rfl, List.countP_cons]
      simp only [writtenPiece, written, Piece.source]
      split <;> omega

/-- Every name that is shortened takes a character at least. -/
theorem length_substitute_add_le (short : Qualified → Bool) (t : Text) :
    (substitute findQualified (written short) t).length + (hits findQualified t).countP short ≤ t.length := by
  have hpieces : ∀ m q, Piece.hit m q ∈ pieces findQualified none t → m = q.full := by
    intro m q hq
    obtain ⟨before, t', hfind⟩ := exists_find_of_mem_pieces hq
    exact (findQualified_spec hfind).1
  have hle := length_written_add_le short hpieces
  rw [source_pieces faithful_findQualified] at hle
  rwa [substitute_written]

theorem length_mapCode_add_le {f : Text → Text} {find : Text → List Qualified} {short : Qualified → Bool}
    (h : ∀ t, (f t).length + (find t).countP short ≤ t.length) (t : Text) :
    (mapCode f t).length + (collectCode find t).countP short ≤ t.length := by
  conv => rhs; rw [← source_segments t]
  unfold mapCode collectCode source
  induction segments t with
  | nil => simp
  | cons s ss ih =>
    simp only [List.flatMap_cons, List.length_append, List.countP_append]
    have hs := h s.text
    split
    · omega
    · simp only [List.countP_nil]
      omega

theorem length_shorten_add_le (b : Bindings) (body : Text) :
    (shorten b body).1.length + (shorten b body).2.length ≤ body.length := by
  have hle := length_mapCode_add_le (length_substitute_add_le (usable b (qualifiedNames body))) body
  unfold shorten
  rw [List.length_map, ← List.countP_eq_length_filter]
  exact hle

/-- A text without names to shorten stays. -/
theorem substitute_of_none {short : Qualified → Bool} {t : Text}
    (h : ∀ q ∈ hits findQualified t, short q = false) : substitute findQualified (written short) t = t := by
  rw [substitute_written]
  conv => rhs; rw [← source_pieces faithful_findQualified none t]
  refine List.flatMap_congr fun p hp => ?_
  cases p with
  | plain c => rfl
  | hit m q =>
    have hq := h q (List.mem_filterMap.2 ⟨.hit m q, hp, rfl⟩)
    simp [writtenPiece, written, hq, Piece.source]

theorem mapCode_of_fixed {f : Text → Text} {t : Text} (h : ∀ s ∈ segments t, s.kind = .code → f s.text = s.text) :
    mapCode f t = t := by
  conv => rhs; rw [← source_segments t]
  refine List.flatMap_congr fun s hs => ?_
  split
  · rename_i hcode
    exact h s hs hcode
  · rfl

/-- **Shortening keeps a text only if it shortens no name.** -/
theorem shorten_eq_iff (b : Bindings) (body : Text) :
    (shorten b body).1 = body ↔ (qualifiedNames body).filter (usable b (qualifiedNames body)) = [] := by
  constructor
  · intro h
    have hle := length_shorten_add_le b body
    rw [h] at hle
    have hnone : (shorten b body).2 = [] := List.length_eq_zero_iff.1 (by omega)
    exact List.map_eq_nil_iff.1 hnone
  · intro h
    refine mapCode_of_fixed fun s hs hcode => substitute_of_none fun q hq => ?_
    have hmem : q ∈ qualifiedNames body := List.mem_flatMap.2 ⟨s, hs, by rwa [if_pos hcode]⟩
    have hnot := List.filter_eq_nil_iff.1 h q hmem
    simpa using hnot

namespace Drops

/-! ## Lines -/

theorem upper_ne {u c : Char} (hu : isAsciiUpper u = true) (hc : isAsciiUpper c = false) : u ≠ c := by
  rintro h
  rw [h, hc] at hu
  cases hu

theorem inPackage_ne {d c : Char} (hd : inPackage d = true) (hc : inPackage c = false) : d ≠ c := by
  rintro h
  rw [h, hc] at hd
  cases hd

theorem splitOn_cons_of_ne {sep c : Char} (h : c ≠ sep) (t : Text) :
    ∃ p rest, splitOn sep t = p :: rest ∧ splitOn sep (c :: t) = (c :: p) :: rest := by
  obtain ⟨p, rest, hp⟩ := List.exists_cons_of_ne_nil (splitOn_ne_nil sep t)
  exact ⟨p, rest, hp, by simp [splitOn, h, hp]⟩

/-- **Lines are shortened one by one.** -/
theorem splitOn {t s : Text} (h : Drops t s) : List.Forall₂ Drops (splitOn '\n' t) (splitOn '\n' s) := by
  induction h with
  | nil => exact .cons .nil .nil
  | @keep c t s _ ih =>
    by_cases hc : c = '\n'
    · simpa [Text.splitOn, hc] using List.Forall₂.cons Drops.nil ih
    · obtain ⟨p, rest, hp, hcp⟩ := splitOn_cons_of_ne hc t
      obtain ⟨p', rest', hp', hcp'⟩ := splitOn_cons_of_ne hc s
      rw [hp, hp'] at ih
      cases ih with
      | cons hline hrest =>
        rw [hcp, hcp']
        exact .cons (.keep c hline) hrest
  | @drop c u t s hc hu _ ih =>
    obtain ⟨p, rest, hp, hcp⟩ := splitOn_cons_of_ne (inPackage_ne hc (c := '\n') (by decide)) t
    obtain ⟨p', rest', -, hup'⟩ := splitOn_cons_of_ne (upper_ne hu (c := '\n') (by decide)) s
    rw [hp, hup'] at ih
    cases ih with
    | cons hline hrest =>
      rw [hcp, hup']
      exact .cons (.drop hc hu hline) hrest

/-! ## Ends -/

theorem not_isBlank_of_upper {u : Char} (hu : isAsciiUpper u = true) : isBlank u = false :=
  not_isBlank_of_inClassName (inClassName_of_upper hu)

theorem not_isBlank_of_inPackage {c : Char} (hc : inPackage c = true) : isBlank c = false := by
  rw [inPackage, Bool.or_eq_true, beq_iff_eq] at hc
  rcases hc with hc | rfl
  · exact not_isBlank_of_inClassName (inClassName_of_inSegment hc)
  · decide

theorem isBlankLine {t s : Text} (h : Drops t s) : isBlankLine s = isBlankLine t := by
  induction h with
  | nil => exact rfl
  | keep c _ ih =>
    simp only [Text.isBlankLine, List.all_cons] at ih ⊢
    rw [ih]
  | drop hc hu _ _ => simp [Text.isBlankLine, not_isBlank_of_upper hu, not_isBlank_of_inPackage hc]

theorem trimStart {t s : Text} (h : Drops t s) : Drops (trimStart t) (trimStart s) := by
  induction h with
  | nil => exact .nil
  | @keep c t s h ih =>
    by_cases hc : isBlank c = true
    · simpa [Text.trimStart, hc] using ih
    · simpa [Text.trimStart, hc] using Drops.keep c h
  | drop hc hu h _ =>
    simpa [Text.trimStart, not_isBlank_of_upper hu, not_isBlank_of_inPackage hc] using Drops.drop hc hu h

end Drops

/-- White space at the end goes character by character from the start. -/
theorem trimEnd_cons (c : Char) (t : Text) :
    trimEnd (c :: t) = if isBlankLine (c :: t) then [] else c :: trimEnd t := by
  have hall : (t.reverse.dropWhile isBlank).isEmpty = isBlankLine t := by
    rw [Bool.eq_iff_iff, List.isEmpty_iff, List.dropWhile_eq_nil_iff, isBlankLine, List.all_eq_true]
    simp
  rw [trimEnd, List.reverse_cons, List.dropWhile_append, hall]
  by_cases ht : isBlankLine t = true
  · by_cases hc : isBlank c = true
    · have hct : isBlankLine (c :: t) = true := by simpa [isBlankLine, hc] using ht
      simp [ht, hc, hct]
    · have hct : isBlankLine (c :: t) = false := by simp [isBlankLine, hc]
      simp [ht, hc, hct, trimEnd, List.isEmpty_iff.1 (hall.trans ht)]
  · have hct : isBlankLine (c :: t) = false := by
      simp only [isBlankLine, List.all_cons, Bool.and_eq_false_iff]
      exact .inr (Bool.eq_false_iff.2 ht)
    simp [ht, hct, trimEnd]

namespace Drops

theorem trimEnd {t s : Text} (h : Drops t s) : Drops (trimEnd t) (trimEnd s) := by
  induction h with
  | nil => exact .nil
  | @keep c t s h ih =>
    rw [trimEnd_cons, trimEnd_cons, (Drops.keep c h).isBlankLine]
    split
    · exact .nil
    · exact .keep c ih
  | @drop c u t s hc hu h ih =>
    have ht : Text.isBlankLine (c :: t) = false := by simp [Text.isBlankLine, not_isBlank_of_inPackage hc]
    have hs : Text.isBlankLine (u :: s) = false := by simp [Text.isBlankLine, not_isBlank_of_upper hu]
    rw [trimEnd_cons u s, hs] at ih ⊢
    rw [trimEnd_cons, ht]
    exact .drop hc hu ih

theorem trim {t s : Text} (h : Drops t s) : Drops (trim t) (trim s) := h.trimStart.trimEnd

theorem head_not_upper {a b s : Text} {c u : Char} (ha : ∀ d ∈ a, isAsciiUpper d = false)
    (hc : isAsciiUpper c = false) (h : u :: s = a ++ c :: b) : isAsciiUpper u = false := by
  cases a with
  | nil => rwa [(List.cons.inj h).1]
  | cons d a => rw [(List.cons.inj h).1, ha d List.mem_cons_self]

/-- Nothing goes from a start without upper-case letters that ends with a character which stays. -/
theorem of_append {a b s : Text} {c : Char} (ha : ∀ d ∈ a, isAsciiUpper d = false) (hp : inPackage c = false)
    (hu : isAsciiUpper c = false) (h : Drops (a ++ c :: b) s) : ∃ b', s = a ++ c :: b' ∧ Drops b b' := by
  induction a generalizing s with
  | nil =>
    cases h with
    | keep _ h => exact ⟨_, rfl, h⟩
    | drop hc => simp [hp] at hc
  | cons d a ih =>
    obtain ⟨-, ha⟩ := List.forall_mem_cons.1 ha
    cases h with
    | keep _ h =>
      obtain ⟨b', rfl, hb⟩ := ih ha h
      exact ⟨b', rfl, hb⟩
    | drop _ hupper h =>
      obtain ⟨b', heq, -⟩ := ih ha h
      simp [head_not_upper ha hu heq] at hupper

/-- Such a start was there before. -/
theorem to_append {a b t : Text} {c : Char} (ha : ∀ d ∈ a, isAsciiUpper d = false) (hu : isAsciiUpper c = false)
    (h : Drops t (a ++ c :: b)) : ∃ b', t = a ++ c :: b' ∧ Drops b' b := by
  induction a generalizing t with
  | nil =>
    cases h with
    | keep _ h => exact ⟨_, rfl, h⟩
    | drop _ hupper => simp [hu] at hupper
  | cons d a ih =>
    obtain ⟨hd, ha⟩ := List.forall_mem_cons.1 ha
    cases h with
    | keep _ h =>
      obtain ⟨b', rfl, hb⟩ := ih ha h
      exact ⟨b', rfl, hb⟩
    | drop _ hupper => simp [hd] at hupper

/-- **A start is kept.** -/
theorem dropPrefix? {a t s : Text} {c : Char} (ha : a.any isAsciiUpper = false) (hp : inPackage c = false)
    (hu : isAsciiUpper c = false) (h : Drops t s) :
    Option.Rel Drops (dropPrefix? (a ++ [c]) t) (dropPrefix? (a ++ [c]) s) := by
  have ha : ∀ d ∈ a, isAsciiUpper d = false := fun d hd => Bool.eq_false_iff.2 (List.any_eq_false.1 ha d hd)
  cases ht : Text.dropPrefix? (a ++ [c]) t with
  | some b =>
    rw [dropPrefix?_eq_some, List.append_assoc] at ht
    obtain ⟨b', rfl, hb⟩ := of_append ha hp hu (ht ▸ h)
    rw [dropPrefix?_eq_some.2 (show a ++ c :: b' = (a ++ [c]) ++ b' by simp)]
    exact .some hb
  | none =>
    cases hs : Text.dropPrefix? (a ++ [c]) s with
    | none => exact .none
    | some b =>
      rw [dropPrefix?_eq_some, List.append_assoc] at hs
      obtain ⟨b', rfl, -⟩ := to_append ha hu (hs ▸ h)
      rw [dropPrefix?_eq_some.2 (show a ++ c :: b' = (a ++ [c]) ++ b' by simp)] at ht
      cases ht

theorem startsWith {a t s : Text} {c : Char} (ha : a.any isAsciiUpper = false) (hp : inPackage c = false)
    (hu : isAsciiUpper c = false) (h : Drops t s) : startsWith (a ++ [c]) s = startsWith (a ++ [c]) t := by
  have hrel := h.dropPrefix? ha hp hu
  unfold Text.startsWith
  generalize Text.dropPrefix? (a ++ [c]) t = before, Text.dropPrefix? (a ++ [c]) s = after at hrel
  cases hrel <;> rfl

/-- **The last character is kept.** -/
theorem getLast? {t s : Text} (h : Drops t s) : s.getLast? = t.getLast? := by
  induction h with
  | nil => rfl
  | @keep c t s h ih =>
    cases h with
    | nil => rfl
    | keep d h => simpa using ih
    | drop _ _ h => simpa using ih
  | @drop c u t s _ _ h ih =>
    obtain ⟨d, t, rfl⟩ : ∃ d t', t = d :: t' := by
      cases h with
      | keep d h => exact ⟨_, _, rfl⟩
      | drop _ _ h => exact ⟨_, _, rfl⟩
    simpa using ih

end Drops

/-- A one-character end is the last character. -/
theorem isSome_dropSuffix?_singleton {c : Char} {t : Text} :
    (dropSuffix? [c] t).isSome = (t.getLast? == some c) := by
  rw [dropSuffix?, Option.isSome_map, List.getLast?_eq_head?_reverse, List.reverse_singleton]
  cases t.reverse with
  | nil => rfl
  | cons d r =>
    by_cases h : c = d
    · simp [dropPrefix?, h]
    · simp [dropPrefix?, h, Ne.symm h]

namespace Drops

/-! ## Header lines -/

/-- A line that is a clause stays one. -/
theorem clause {a t s : Text} (ha : a.any isAsciiUpper = false) (h : Drops t s) :
    ((Text.dropPrefix? (a ++ [' ']) (Text.trim s)).bind fun rest => (dropSuffix? [';'] rest).bind fun name =>
        some (Text.trim name)).isSome =
      ((Text.dropPrefix? (a ++ [' ']) (Text.trim t)).bind fun rest => (dropSuffix? [';'] rest).bind fun name =>
        some (Text.trim name)).isSome := by
  have hrel := h.trim.dropPrefix? ha (c := ' ') (by decide) (by decide)
  generalize Text.dropPrefix? (a ++ [' ']) (Text.trim t) = before,
    Text.dropPrefix? (a ++ [' ']) (Text.trim s) = after at hrel
  cases hrel with
  | none => rfl
  | @some rest rest' hrest =>
    have hlast : (dropSuffix? [';'] rest').isSome = (dropSuffix? [';'] rest).isSome := by
      rw [isSome_dropSuffix?_singleton, isSome_dropSuffix?_singleton, hrest.getLast?]
    simpa [Option.isSome_bind] using hlast

theorem isImport {t s : Text} (h : Drops t s) : isImport s = isImport t :=
  h.clause (a := text "import") (by decide)

theorem packageClause? {t s : Text} (h : Drops t s) : (packageClause? s).isSome = (packageClause? t).isSome :=
  h.clause (a := text "package") (by decide)

theorem isHeaderLine {t s : Text} (h : Drops t s) : isHeaderLine s = isHeaderLine t := by
  have hline := h.trim.startsWith (a := ['/']) (c := '/') (by decide) (by decide) (by decide)
  have hblock := h.trim.startsWith (a := ['/']) (c := '*') (by decide) (by decide) (by decide)
  have hstar := h.trim.startsWith (a := []) (c := '*') (by decide) (by decide) (by decide)
  unfold Java.isHeaderLine isHeaderNoise
  rw [h.packageClause?, h.isImport, h.isBlankLine]
  simp only [List.nil_append, List.cons_append] at hline hblock hstar
  rw [show text "//" = ['/', '/'] from rfl, show text "/*" = ['/', '*'] from rfl, hline, hblock, hstar]

end Drops

end JavaMend.Java
