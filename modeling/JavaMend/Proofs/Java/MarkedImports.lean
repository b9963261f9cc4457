import JavaMend.Proofs.Java.Measures
import Mathlib.Data.List.DropRight

/-!
# `Proofs.Java.MarkedImports` — repairing imports adds no marks

Repair writes every import at most once and with fewer blanks than it found, and an import that it adds is paid for by
the package that it took out of the body.

## Contents
- **Ends.** `tally_trim_le`, `tally_joinWith_words_le`.
- **Import lines.** `tally_importLine`.
- **Shortening.** `sheds_full`, `tally_shorten_le`.
- **Repair.** `importMeasure_tally`; `tally_fixImports_le`, `tally_ensureImport_le`.
-/

namespace JavaMend.Java

open JavaMend Text

variable {m : Mark}

/-! ## Ends -/

theorem inClassName_of_isBlank {c : Char} (h : isBlank c = true) : inClassName c = false := by
  refine Bool.eq_false_iff.2 fun hc => ?_
  rw [not_isBlank_of_inClassName hc] at h
  cases h

theorem tally_trimStart_le (t : Text) : tally m none (trimStart t) ≤ tally m none t := by
  induction t with
  | nil => exact Nat.le_refl 0
  | cons c t ih =>
    by_cases hc : isBlank c = true
    · rw [trimStart, List.dropWhile_cons_of_pos hc, tally_cons, tally_after_gap (inClassName_of_isBlank hc)]
      exact Nat.le_trans ih (Nat.le_add_left _ _)
    · rw [trimStart, List.dropWhile_cons_of_neg hc]

theorem tally_prefix_le (before : Option Char) {s t : Text} (h : s <+: t) : tally m before s ≤ tally m before t := by
  obtain ⟨r, rfl⟩ := h
  rw [tally_append]
  exact Nat.le_add_right _ _

theorem prefix_trimEnd (t : Text) : trimEnd t <+: t := List.rdropWhile_prefix isBlank t

theorem tally_trim_le (t : Text) : tally m none (trim t) ≤ tally m none t :=
  Nat.le_trans (tally_prefix_le none (prefix_trimEnd (trimStart t))) (tally_trimStart_le t)

/-- What counts at a white space character does not depend on what stands before it. -/
theorem tally_cons_blank (before : Option Char) {c : Char} (h : isBlank c = true) (t : Text) :
    tally m before (c :: t) = tally m none (c :: t) := by
  have hmarks : m.marks before c = m.marks none c := by
    cases m with
    | carriageReturn => rfl
    | colon => rfl
    | number =>
      have hdigit : isAsciiDigit c = false := by
        have hname := inClassName_of_isBlank h
        simp only [inClassName, Bool.or_eq_false_iff] at hname
        exact hname.1.1.2
      simp [Mark.marks, hdigit]
    | source =>
      have hdot : c ≠ '.' := by
        rintro rfl
        exact absurd h (by decide)
      simp [Mark.marks, hdot]
  rw [tally_cons, tally_cons, hmarks]

/-- A word behind a blank counts as at the start. -/
theorem tally_joinWith_space_cons (before : Option Char) (w : Text) (ws : List Text) :
    tally m before (joinWith [' '] (w :: ws)) = tally m before w + tally m none (joinWith [' '] ws) := by
  cases ws with
  | nil => simp [joinWith]
  | cons v vs =>
    rw [joinWith, List.append_assoc, tally_append, List.singleton_append, tally_cons_plain _ (by decide),
      tally_after_gap (by decide)]

theorem tally_joinWith_words_le (before : Option Char) {t : Text}
    (h : before = none ∨ t.head?.any isBlank = false) :
    tally m before (joinWith [' '] (words t)) ≤ tally m before t := by
  induction t generalizing before with
  | nil => exact Nat.zero_le _
  | cons c t ih =>
    cases hc : isBlank c with
    | true =>
      have hnone : before = none := h.resolve_right (by simp [hc])
      rw [words_cons_blank hc, hnone, tally_cons, tally_after_gap (inClassName_of_isBlank hc)]
      exact Nat.le_trans (ih none (.inl rfl)) (Nat.le_add_left _ _)
    | false =>
      cases t with
      | nil => simp [words_cons_eq, hc, joinWith]
      | cons d t =>
        cases hd : isBlank d with
        | true =>
          have hwords : words (c :: d :: t) = [c] :: words (d :: t) := by
            rw [words_cons_eq]
            simp [hc, hd]
          have hrest := ih none (.inl rfl)
          rw [hwords, tally_joinWith_space_cons, tally_cons m before c, tally_cons m before c,
            tally_cons_blank (some c) hd]
          exact Nat.add_le_add_left hrest _
        | false =>
          obtain ⟨w, ws, hw, -⟩ := words_cons hd t
          have hwords : words (c :: d :: t) = (c :: d :: w) :: ws := by
            rw [words_cons_eq]
            simp [hc, hd, hw]
          have hrest := ih (some c) (.inr (by simp [hd]))
          rw [hw] at hrest
          rw [hwords, joinWith_cons_cons, tally_cons, tally_cons m before c]
          exact Nat.add_le_add_left hrest _

/-! ## Import lines -/

theorem tally_importLine (target : Text) : tally m none (importLine target) = tally m none target := by
  have hend (before : Option Char) : tally m before [';'] = 0 := tally_of_plain before (by decide)
  have hword : tally m none (text "import ") = 0 := tally_of_plain none (by decide)
  have hspace : endOf none (text "import ") = some ' ' := by decide
  unfold importLine
  rw [tally_append, tally_append, hend, hword, hspace, tally_after_gap (by decide), Nat.zero_add, Nat.add_zero]

/-! ## Shortening -/

/-- In a name no mark stands behind another character of it. -/
theorem tally_inClassName {b : Char} (hb : inClassName b = true) {t : Text} (h : ∀ c ∈ t, inClassName c = true) :
    tally m (some b) t = 0 := by
  induction t generalizing b with
  | nil => rfl
  | cons c t ih =>
    obtain ⟨hc, ht⟩ := List.forall_mem_cons.1 h
    have hreturn : c ≠ '\r' := by
      rintro rfl
      exact absurd hc (by decide)
    have hcolon : c ≠ ':' := by
      rintro rfl
      exact absurd hc (by decide)
    have hdot : c ≠ '.' := by
      rintro rfl
      exact absurd hc (by decide)
    have hmarks : m.marks (some b) c = false := by
      cases m with
      | carriageReturn => simp [Mark.marks, hreturn]
      | colon => simp [Mark.marks, hcolon]
      | number => simp [Mark.marks, hb]
      | source => simp [Mark.marks, hdot]
    rw [tally_cons, hmarks, ih hc ht]
    rfl

theorem isPlain_of_upper {c : Char} (h : isAsciiUpper c = true) : Mark.isPlain c = true := by
  simp only [isAsciiUpper, Bool.and_eq_true, decide_eq_true_eq] at h
  have hdigit : isAsciiDigit c = false := by
    simp only [isAsciiDigit, Bool.and_eq_false_iff, decide_eq_false_iff_not]
    omega
  have hne {d : Char} (hd : d.toNat < 0x41) : c ≠ d := by
    rintro rfl
    omega
  simp [Mark.isPlain, hdigit, hne]

/-- A package that goes takes its marks with it. -/
theorem sheds_full {q : Qualified} (h : q.Proper) : Sheds m (tally m none q.full) q.full q.name := by
  obtain ⟨u, n, hname, hu⟩ := h.opens
  obtain ⟨root, hroot, rest, hpackage⟩ := h.below
  have hn : ∀ c ∈ n, inClassName c = true := fun c hc => h.name c (hname ▸ List.mem_cons_of_mem u hc)
  have hplain := isPlain_of_upper hu
  -- The package opens with a plain letter, so it counts everywhere as at the start.
  have hstart (before : Option Char) (t : Text) : tally m before (q.full ++ t) = tally m none (q.full ++ t) := by
    rw [Qualified.full, ← hpackage]
    simp only [rootPackages, List.mem_cons, List.not_mem_nil, or_false] at hroot
    rcases hroot with rfl | rfl
    · exact (tally_cons_plain before (by decide) _).trans (tally_cons_plain none (by decide) _).symm
    · exact (tally_cons_plain before (by decide) _).trans (tally_cons_plain none (by decide) _).symm
  have hzero (before : Option Char) : tally m before q.name = 0 := by
    rw [hname, tally_cons_plain before hplain, tally_inClassName (inClassName_of_upper hu) hn]
  have hwhole (t : Text) : tally m none (q.full ++ t) =
      tally m none (q.package ++ ['.']) + tally m (some '.') (q.name ++ t) := by
    rw [Qualified.full, show q.package ++ '.' :: q.name ++ t = (q.package ++ ['.']) ++ (q.name ++ t) by simp,
      tally_append, endOf_concat]
  intro before rest
  have hpaid : tally m none q.full = tally m none (q.package ++ ['.']) := by
    have := hwhole []
    rwa [List.append_nil, List.append_nil, hzero, Nat.add_zero] at this
  have hrest : tally m before (q.name ++ rest) = tally m (some '.') (q.name ++ rest) := by
    rw [hname, List.cons_append, tally_cons_plain before hplain, tally_cons_plain (some '.') hplain]
  rw [hstart, hwhole, hpaid, hrest]
  exact Nat.le_of_eq (Nat.add_comm _ _)

theorem sheds_written (short : Qualified → Bool) {ps : List (Piece Qualified)}
    (h : ∀ found q, Piece.hit found q ∈ ps → found = q.full ∧ q.Proper) :
    Sheds m (weight m (((ps.filterMap Piece.value?).filter short).map Qualified.full)) (ps.flatMap Piece.source)
      (ps.flatMap (writtenPiece short)) := by
  induction ps with
  | nil => exact .refl m []
  | cons p ps ih =>
    have ih := ih fun found q hq => h found q (List.mem_cons_of_mem p hq)
    rw [List.flatMap_cons, List.flatMap_cons]
    cases p with
    | plain c =>
      rw [List.filterMap_cons_none rfl]
      exact ((Sheds.refl m [c]).append ih).mono (Nat.le_add_left _ _)
    | hit found q =>
      obtain ⟨rfl, hproper⟩ := h found q List.mem_cons_self
      rw [show (Piece.hit q.full q :: ps).filterMap Piece.value? = q :: ps.filterMap Piece.value? from rfl,
        List.filter_cons]
      simp only [writtenPiece, written, Piece.source]
      split
      · exact (sheds_full hproper).append ih
      · exact ((Sheds.refl m q.full).append ih).mono (Nat.le_add_left _ _)

theorem sheds_substitute (short : Qualified → Bool) (t : Text) :
    Sheds m (weight m (((hits findQualified t).filter short).map Qualified.full)) t
      (substitute findQualified (written short) t) := by
  have hpieces : ∀ found q, Piece.hit found q ∈ pieces findQualified none t → found = q.full ∧ q.Proper := by
    intro found q hq
    obtain ⟨before, t', hfind⟩ := exists_find_of_mem_pieces hq
    obtain ⟨hfull, -, hproper⟩ := findQualified_spec hfind
    exact ⟨hfull, hproper⟩
  have h := sheds_written (m := m) short hpieces
  rw [source_pieces faithful_findQualified] at h
  rwa [substitute_written]

/-- **Shortening pays for its imports**: the names that are to be imported have no more marks than the body lost. -/
theorem tally_shorten_le (b : Bindings) (body : Text) :
    tally m none (shorten b body).1 + weight m (shorten b body).2 ≤ tally m none body := by
  refine Sheds.le ?_ none
  have hcode (short : Qualified → Bool) (ss : List Segment) :
      Sheds m (weight m (((ss.flatMap fun s => if s.kind = .code then hits findQualified s.text else []).filter
          short).map Qualified.full)) (source ss)
        (ss.flatMap fun s => if s.kind = .code then substitute findQualified (written short) s.text else s.text) := by
    induction ss with
    | nil => exact .refl m []
    | cons s ss ih =>
      unfold source at ih ⊢
      rw [List.flatMap_cons, List.flatMap_cons, List.flatMap_cons, List.filter_append, List.map_append, weight_append]
      refine Sheds.append ?_ ih
      split
      · exact sheds_substitute short s.text
      · exact .refl m s.text
  have h := hcode (usable b (qualifiedNames body)) (segments body)
  rw [source_segments] at h
  exact h

/-! ## Repair -/

/-- Marks are a measure that repair does not increase. -/
theorem importMeasure_tally (m : Mark) : ImportMeasure (tally m none) where
  nil := rfl
  newline := tally_append_newline
  trim_le := tally_trim_le
  words_le _ := tally_joinWith_words_le none (.inl rfl)
  importLine_eq := tally_importLine
  shorten_le := tally_shorten_le

/-- **Repairing imports adds no marks.** -/
theorem tally_fixImports_le (t : Text) : tally m none (fixImports t) ≤ tally m none t :=
  (importMeasure_tally m).fixImports_le t

/-- Adding an import without marks adds none. -/
theorem tally_ensureImport_le {target : Text} (h : tally m none target = 0) (t : Text) :
    tally m none (ensureImport t target) ≤ tally m none t :=
  (importMeasure_tally m).ensureImport_le h t

end JavaMend.Java
