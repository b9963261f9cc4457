import JavaMend.Proofs.Java.FixedLiterals
import JavaMend.Proofs.Java.KeptLines
import JavaMend.Proofs.Java.TidyOnce

/-!
# `Proofs.Java.TidyLiterals` — tidying leaves literals alone

Some edits of the catalogue see no lexemes, others can join lines. Where every literal is closed on its own line, each edit
leaves the literals as they are: an edit of lines changes a line only where no literal is, and an edit of code changes no
literal anyway. So the literals are the same after all five (`literals_tidy`).

## Contents
- **Lines.** `settledLines_of_literals`, `literals_mapLines`; `readsAs_dropEmpty`.
- **Blank lines.** `settledLines_nonblank_iff`, `nonblank_squeezeBlank`; `literals_collapseBlankLines`.
- **Tidy texts.** `literals_tidy`.
-/

namespace JavaMend.Java

open JavaMend Text

/-! ## Lines -/

/-- The literals of a text are those of its lines, if every literal is closed on its own line. -/
theorem settledLines_of_literals {t : Text} (h : ∀ l ∈ literals t, IsClosed l) :
    SettledLines .code (splitOn '\n' t) ∧ literals t = litLines .code (splitOn '\n' t) := by
  have htext : unlines (splitOn '\n' t) false = t := by simp [unlines, joinWith_splitOn]
  have hliterals : literals t = (litFrom .code (unlines (splitOn '\n' t) false)).2 := by rw [htext, literals_eq]
  rw [hliterals] at h
  have hsettled := settledLines_of_closed rfl (fun l => newline_not_mem_splitOn) h
  exact ⟨hsettled, by rw [hliterals, litFrom_unlines hsettled]⟩

/-- **An edit of lines leaves the literals alone** if it does so in every line that ends outside literals. -/
theorem literals_mapLines {f : Text → Text}
    (hf : ∀ m l, m = .code ∨ m = .block → '\n' ∉ l → (finish m l none).inLiteral = false → ReadsAs id m (f l) l)
    {t : Text} (h : ∀ l ∈ literals t, IsClosed l) : literals (mapLines f t) = literals t := by
  obtain ⟨hsettled, hlines⟩ := settledLines_of_literals h
  have hmap {m : Mode} (hm : m = .code ∨ m = .block) {ls : List Text} (hls : ∀ l ∈ ls, '\n' ∉ l)
      (h : SettledLines m ls) : SettledLines m (ls.map f) ∧ litLines m (ls.map f) = litLines m ls := by
    induction ls generalizing m with
    | nil => exact ⟨trivial, rfl⟩
    | cons l ls ih =>
      obtain ⟨hl, hls⟩ := List.forall_mem_cons.1 hls
      have hline := hf m l hm hl h.1
      obtain ⟨hrest, hliterals⟩ := ih (exit_opens h.1) hls h.2
      rw [List.map_cons, SettledLines, litLines, litLines, hline.exit, hline.literals, hliterals, List.map_id]
      exact ⟨⟨hline.settled, hrest⟩, rfl⟩
  obtain ⟨hsettled, hsame⟩ := hmap (.inl rfl) (fun l => newline_not_mem_splitOn) hsettled
  have htext : mapLines f t = unlines ((splitOn '\n' t).map f) false := by simp [mapLines, unlines]
  rw [literals_eq, htext, litFrom_unlines hsettled, hsame, hlines]

theorem not_isQuote_of_isPlainCode {l : Text} (h : isPlainCode l = true) : ∀ c ∈ l, isQuote c = false := by
  intro c hc
  rw [isPlainCode, Bool.and_eq_true, Bool.not_eq_true', Bool.not_eq_true', List.any_eq_false] at h
  exact Bool.eq_false_iff.2 (h.2 c hc)

theorem readsAs_dropEmpty {m : Mode} (hm : m = .code ∨ m = .block) {l : Text} (hl : '\n' ∉ l)
    (h : (finish m l none).inLiteral = false) : ReadsAs id m (dropEmpty l) l := by
  have hproper : m.isProper = true := by rcases hm with rfl | rfl <;> rfl
  unfold dropEmpty
  split
  · rename_i hcond
    rw [Bool.and_eq_true] at hcond
    by_cases hcount : 2 ≤ rowCount l
    · -- No literal is in a line without quotes.
      have hfinish := finish_collapsed hproper (collapsed_of_le hcount) none
      have hnone {k : Text} (hk : ∀ c ∈ k, c ∈ l) : (litFrom m k).2 = [] := by
        have hread := litFrom_unquoted hproper (fun c hc => not_isQuote_of_isPlainCode hcond.1 c (hk c hc))
          (fun hmem => hl (hk _ hmem)) []
        rw [List.append_nil] at hread
        rw [hread, litFrom_nil]
      have hmem : ∀ c ∈ collapseSemicolons l, c ∈ l := fun c hc => by
        refine mem_dropEmpty ?_
        rwa [dropEmpty, hcond.1, hcond.2]
      refine ⟨by rwa [hfinish], ?_, ?_⟩
      · rw [hnone hmem, hnone fun c hc => hc, List.map_nil]
      · rw [exit_eq, hfinish, ← exit_eq]
    · rw [collapseSemicolons_of_lt (Nat.lt_of_not_le hcount)]
      exact ⟨h, (List.map_id _).symm, rfl⟩
  · exact ⟨h, (List.map_id _).symm, rfl⟩

/-! ## Blank lines -/

section
variable {m : Mode} (hm : m = .code ∨ m = .block)

include hm

/-- A blank line outside literals is left as it was entered, and holds no literal. -/
theorem read_blank {l : Text} (hl : '\n' ∉ l) (h : isBlankLine l = true) :
    (finish m l none).inLiteral = false ∧ exit m l = m ∧ (litFrom m l).2 = [] := by
  have hinert : ∀ c ∈ l, isInert c = true := by
    intro c hc
    refine isInert_of_isBlank (List.all_eq_true.1 h c hc) ?_
    rintro rfl
    exact hl hc
  have hfinish : finish m l none = m := by
    rw [← List.append_nil l, finish_inert hm hinert, finish_nil]
  refine ⟨?_, ?_, ?_⟩
  · rw [hfinish]
    rcases hm with rfl | rfl <;> rfl
  · rw [exit_eq, hfinish]
    rcases hm with rfl | rfl <;> rfl
  · rw [← List.append_nil l, litFrom_inert hm hinert, litFrom_nil]

/-- **Blank lines are of no account** where lines end outside literals. -/
theorem settledLines_nonblank_iff {ls : List Text} (hls : ∀ l ∈ ls, '\n' ∉ l) :
    (SettledLines m (nonblank ls) ↔ SettledLines m ls)
      ∧ (SettledLines m ls → litLines m (nonblank ls) = litLines m ls) := by
  induction ls generalizing m with
  | nil => exact ⟨Iff.rfl, fun _ => rfl⟩
  | cons l ls ih =>
    obtain ⟨hl, hls⟩ := List.forall_mem_cons.1 hls
    cases hblank : isBlankLine l with
    | true =>
      obtain ⟨hfinish, hexit, hnone⟩ := read_blank hm hl hblank
      have hfilter : nonblank (l :: ls) = nonblank ls := List.filter_cons_of_neg (by simp [hblank])
      rw [hfilter, SettledLines, litLines, hexit, hnone, List.nil_append]
      exact ⟨by rw [(ih hm hls).1, hfinish]; simp, fun h => (ih hm hls).2 h.2⟩
    | false =>
      have hfilter : nonblank (l :: ls) = l :: nonblank ls := List.filter_cons_of_pos (by simp [hblank])
      rw [hfilter, SettledLines, SettledLines, litLines, litLines]
      refine ⟨and_congr_right fun hsettled => (ih (exit_opens hsettled) hls).1, fun h => ?_⟩
      rw [(ih (exit_opens h.1) hls).2 h.2]

end

theorem nonblank_squeezeBlank (open_ : Bool) (ls : List Text) : nonblank (squeezeBlank open_ ls) = nonblank ls := by
  unfold nonblank
  fun_induction squeezeBlank open_ ls with
  | case1 => rfl
  | case2 l ls hblank ih => rw [ih, List.filter_cons_of_neg (by simp [hblank])]
  | case3 open_ l ls hblank _ ih =>
    rw [List.filter_cons_of_neg (by simp [hblank]), List.filter_cons_of_neg (by simp [hblank]), ih]
  | case4 open_ l ls hblank ih =>
    rw [List.filter_cons_of_pos (by simpa using hblank), List.filter_cons_of_pos (by simpa using hblank), ih]

theorem literals_collapseBlankLines {t : Text} (h : ∀ l ∈ literals t, IsClosed l) :
    literals (collapseBlankLines t) = literals t := by
  obtain ⟨hsettled, hlines⟩ := settledLines_of_literals h
  have hsame : nonblank (spacedLines t) = nonblank (splitOn '\n' t) :=
    (nonblank_dropBlankEnd _).trans (nonblank_squeezeBlank true _)
  have hkept := @settledLines_nonblank_iff .code (.inl rfl) (spacedLines t)
    fun l hl => newline_not_mem_splitOn (mem_spacedLines hl)
  have hall := @settledLines_nonblank_iff .code (.inl rfl) (splitOn '\n' t) fun l => newline_not_mem_splitOn
  rw [hsame, hall.1] at hkept
  have hspaced := hkept.1.1 hsettled
  rw [literals_eq, collapseBlankLines_eq, litFrom_unlines hspaced, ← hkept.2 hspaced, hall.2 hsettled, hlines]

/-! ## Tidy texts -/

/-- **Tidying leaves literals alone** where every literal is closed on its own line: they stay verbatim and in order. -/
theorem literals_tidy {t : Text} (h : ∀ l ∈ literals t, IsClosed l) : literals (tidy t) = literals t := by
  have hends : literals (stripLineEnds t) = literals t := by
    refine literals_mapLines (fun m l hm hl => readsAs_trimEnd ?_ hl) h
    rcases hm with rfl | rfl <;> rfl
  have hcasts : literals (collapseCasts (stripLineEnds t)) = literals t :=
    (literals_mapCode editsCode_findCasts _).trans hends
  have htypes : literals (nameUndefined (collapseCasts (stripLineEnds t))) = literals t :=
    (literals_mapCode editsCode_undefinedType _).trans hcasts
  have hstatements : literals (dropEmptyStatements (nameUndefined (collapseCasts (stripLineEnds t)))) = literals t :=
    (literals_mapLines (f := dropEmpty) (fun m l hm => readsAs_dropEmpty hm) (by rwa [htypes])).trans htypes
  rw [tidy_eq, literals_collapseBlankLines (by rwa [hstatements]), hstatements]

/-- A class with a literal that looks like what is tidied, between what is. -/
def untidyField : Text :=
  text "class A \x7b  \n\n\n   long n = (long) (long)m;;\n   String s = \"(int)(int);;  <undefinedtype>  \";;\n\n\n\x7d"

theorem literals_tidy_untidyField : literals (tidy untidyField) = literals untidyField :=
  literals_tidy (by decide +kernel)

end JavaMend.Java
