import JavaMend.Proofs.Java.FixedLines
import JavaMend.Proofs.Java.Recast

/-!
# `Proofs.Java.FixedLiterals` — what the first repairs do to literals

The repairs of a line know no literals. Trimming zeros and qualifying inner classes recast the line between two quotes,
so they do to a literal what they would do to it on its own; the other repairs do not touch literals. A literal is kept
exactly if those two leave it alone (`keepsLiterals_iff`), and a version number in a string is not left alone
(`not_keepsLiterals_version`).

## Contents
- **Pieces between quotes.** `RecastsPieces`; `RecastsPieces.recasts_substitute`.
- **Fractions and inner classes.** `recasts_trimZeros`, `recasts_qualifyInner`.
- **Ends and openings of lines.** `ReadsAs`; `readsAs_trimEnd`, `finish_inert`, `litFrom_inert`, `readsAs_dropAbstract`.
- **Files.** `fixedLiteral`, `KeepsLiterals`; `litLines_fixLines`, `keepsLiterals_iff`, `not_keepsLiterals_version`.
-/

namespace JavaMend.Java

open JavaMend Text

/-! ## Pieces between quotes -/

section
variable {α : Type} {find : Finder α} {write : Text → α → Text}

/-- A finder that looks at nothing beyond a quote, and whose hits are inert and edited to inert text. -/
structure RecastsPieces (find : Finder α) (write : Text → α → Text) : Prop where
  faithful : find.Faithful
  ahead {q} (before : Option Char) (t y : Text) : isQuote q = true → find before (t ++ q :: y) = find before t
  behind {q} (t : Text) : isQuote q = true → find (some q) t = find none t
  inert {before t m a} : find before t = some (m, a) →
    (∀ c ∈ m, isInert c = true) ∧ write m a ≠ [] ∧ ∀ c ∈ write m a, isInert c = true

namespace RecastsPieces

variable (h : RecastsPieces find write)

include h

theorem find_quote (before : Option Char) {q : Char} (hq : isQuote q = true) (y : Text) :
    find before (q :: y) = none := by
  have hahead := h.ahead before [] y hq
  rw [List.nil_append] at hahead
  rw [hahead]
  refine Option.eq_none_iff_forall_ne_some.2 fun found hfound => ?_
  obtain ⟨hne, hpre⟩ := h.faithful before [] found.1 found.2 hfound
  exact hne (List.prefix_nil.1 hpre)

theorem edited_behind {q : Char} (hq : isQuote q = true) (t : Text) :
    edited find write (some q) t = edited find write none t := by
  cases t with
  | nil => simp [edited, pieces]
  | cons c t =>
    unfold edited
    rw [pieces, pieces, h.behind (c :: t) hq]

/-- A text is edited up to a quote and from there on. -/
theorem edited_cut (before : Option Char) (x : Text) {q : Char} (hq : isQuote q = true) (y : Text) :
    edited find write before (x ++ q :: y) = edited find write before x ++ q :: edited find write none y := by
  induction before, x using pieces_induction h.faithful with
  | nil before =>
    rw [List.nil_append, edited_cons_none (h.find_quote before hq y), h.edited_behind hq]
    simp [edited, pieces]
  | plain before c x hnone ih =>
    have hnone' := h.ahead before (c :: x) y hq
    rw [hnone, List.cons_append] at hnone'
    rw [List.cons_append, edited_cons_none hnone', edited_cons_none hnone, ih, List.cons_append]
  | hit before m a x hhit ih =>
    have hhit' := h.ahead before (m ++ x) y hq
    rw [hhit, List.append_assoc] at hhit'
    rw [List.append_assoc, edited_hit h.faithful hhit', edited_hit h.faithful hhit, ih, List.append_assoc]

theorem recast_edited (before : Option Char) (x : Text) : Recast x (edited find write before x) := by
  induction before, x using pieces_induction h.faithful with
  | nil before => simpa [edited, pieces] using Recast.nil
  | plain before c x hnone ih =>
    rw [edited_cons_none hnone]
    exact .char c ih
  | hit before m a x hhit ih =>
    obtain ⟨hm, hne, hw⟩ := h.inert hhit
    rw [edited_hit h.faithful hhit]
    exact .run (h.faithful _ _ _ _ hhit).1 hne hm hw ih

theorem recasts_substitute : Recasts (substitute find write) where
  recast x := by
    rw [substitute_eq_edited]
    exact h.recast_edited none x
  cut x y hq := by
    simp only [substitute_eq_edited]
    exact h.edited_cut none x hq y

end RecastsPieces

end

/-! ## Fractions and inner classes -/

theorem isInert_of_fraction {c : Char} (h : isAsciiDigit c = true ∨ c = '.' ∨ isSuffix c = true) : isInert c = true := by
  rcases h with h | rfl | h
  · exact isInert_of (by decide) h
  · decide
  · exact isInert_of (by decide) h

theorem not_isWordChar_quote {q : Char} (hq : isQuote q = true) : isWordChar q = false :=
  not_quote (by decide +kernel) hq

theorem fractionEnd?_append (t y : Text) {q : Char} (hq : isQuote q = true) :
    fractionEnd? (t ++ q :: y) = fractionEnd? t := by
  have hword := not_isWordChar_quote hq
  cases t with
  | nil =>
    have hsuffix : isSuffix q = false := not_quote (by decide) hq
    simp [fractionEnd?, hsuffix, hword]
  | cons c t =>
    cases t with
    | nil => simp [fractionEnd?, isBoundary, hword]
    | cons d t => rfl

theorem trimFraction?_append (t y : Text) {q : Char} (hq : isQuote q = true) :
    trimFraction? (t ++ q :: y) = trimFraction? t := by
  have hdigit : isAsciiDigit q = false := not_quote (by decide) hq
  have hdot : q ∉ ['.'] := by
    rintro hmem
    obtain rfl := List.mem_singleton.1 hmem
    exact absurd hq (by decide)
  unfold trimFraction?
  rw [takeWhile_append_cons hdigit, dropWhile_append_cons hdigit, dropPrefix?_append_cons hdot]
  cases dropPrefix? ['.'] (t.dropWhile isAsciiDigit) with
  | none => rfl
  | some rest =>
    simp only [Option.map_some, Option.bind_eq_bind, Option.bind_some, takeWhile_append_cons hdigit,
      dropWhile_append_cons hdigit, fractionEnd?_append _ y hq]

theorem recastsPieces_findFraction : RecastsPieces findFraction fun _ short => short where
  faithful := faithful_findFraction
  ahead before t y hq := by rw [findFraction, findFraction, trimFraction?_append t y hq]
  behind t hq := by simp [findFraction, not_isWordChar_quote hq]
  inert h := by
    obtain ⟨-, ⟨d, -, -, hshort⟩, hchars⟩ := trimFraction?_spec (findFraction_eq_some h)
    have hinert := fun c hc => isInert_of_fraction (hchars c hc)
    refine ⟨fun c hc => hinert c (List.mem_append_left _ hc), ?_, fun c hc => hinert c (List.mem_append_right _ hc)⟩
    rintro rfl
    cases hshort

/-- **Trimming zeros knows no literals.** -/
theorem recasts_trimZeros : Recasts trimZeros := recastsPieces_findFraction.recasts_substitute

section
variable {className : Text}

theorem recast_qualifyInner (before : Option Char) (t : Text) : Recast t (qualifyInner className before t) := by
  induction before, t using qualifyInner_induction className with
  | nil before =>
    rw [qualifyInner_nil]
    exact .nil
  | plain before c t hnone ih =>
    rw [qualifyInner_of_none hnone]
    exact .char c ih
  | name before rest ih =>
    rw [qualifyInner_name]
    have hmark : isInert (innerMark before rest) = true := by
      unfold innerMark
      split <;> decide
    have hdollar : isInert '$' = true := by decide
    exact Recast.of_append (.run (u := ['$']) (v := [innerMark before rest]) (by simp) (by simp) (by simpa using hdollar)
      (by simpa using hmark) ih)

theorem innerMark_append (before : Option Char) (rest y : Text) {q : Char} (hq : isQuote q = true) :
    innerMark before (rest ++ q :: y) = innerMark before rest := by
  have hopens : (isLetter q || q == '_') = false := not_quote (p := fun c => isLetter c || c == '_') (by decide +kernel) hq
  unfold innerMark
  cases rest with
  | nil => simp [opensInner, hopens]
  | cons d rest => rfl

theorem qualifyInner_cut (hname : ∀ c ∈ className, isQuote c = false) (before : Option Char) (x y : Text) {q : Char}
    (hq : isQuote q = true) : qualifyInner className before (x ++ q :: y) =
      qualifyInner className before x ++ q :: qualifyInner className none y := by
  -- No name with a dollar sign goes over a quote.
  have hmem : q ∉ className ++ ['$'] := by
    intro hmem
    rcases List.mem_append.1 hmem with hmem | hmem
    · rw [hname q hmem] at hq
      cases hq
    · obtain rfl := List.mem_singleton.1 hmem
      exact absurd hq (by decide)
  induction before, x using qualifyInner_induction className with
  | nil before =>
    have hnone := dropPrefix?_append_cons hmem [] y
    have hnil : dropPrefix? (className ++ ['$']) [] = none := by cases className <;> rfl
    rw [hnil, Option.map_none, List.nil_append] at hnone
    have hident : isIdentChar q = false := not_quote (by decide +kernel) hq
    have hbehind : qualifyInner className (some q) y = qualifyInner className none y :=
      qualifyInner_congr (by simpa using hident) y
    rw [List.nil_append, qualifyInner_of_none hnone, qualifyInner_nil, hbehind, List.nil_append]
  | plain before c x hnone ih =>
    have hnone' := dropPrefix?_append_cons hmem (c :: x) y
    rw [hnone, Option.map_none, List.cons_append] at hnone'
    rw [List.cons_append, qualifyInner_of_none hnone', qualifyInner_of_none hnone, ih, List.cons_append]
  | name before rest ih =>
    rw [List.append_assoc, List.cons_append, qualifyInner_name, qualifyInner_name, innerMark_append before rest y hq, ih,
      List.append_assoc, List.cons_append]

/-- **Qualifying the inner classes of a class knows no literals**, if no quote is in the name of the class. -/
theorem recasts_qualifyInner (hname : ∀ c ∈ className, isQuote c = false) : Recasts (qualifyInner className none) where
  recast := recast_qualifyInner none
  cut x y hq := qualifyInner_cut hname none x y hq

end

/-! ## Ends and openings of lines -/

/-- Read from a mode on, one line ends outside literals and goes on as another does, and its literals are those of the
    other one edited. -/
structure ReadsAs (g : Text → Text) (m : Mode) (k l : Text) : Prop where
  settled : (finish m k none).inLiteral = false
  literals : (litFrom m k).2 = (litFrom m l).2.map g
  exit : exit m k = exit m l

theorem ReadsAs.trans {g : Text → Text} {m : Mode} {j k l : Text} (hj : ReadsAs id m j k) (hk : ReadsAs g m k l) :
    ReadsAs g m j l :=
  ⟨hj.settled, hj.literals.trans ((List.map_id _).trans hk.literals), hj.exit.trans hk.exit⟩

/-- **White space at the end of a line** is not read, if no literal goes on behind it. -/
theorem readsAs_trimEnd {m : Mode} (hm : m.isProper = true) {l : Text} (hl : '\n' ∉ l)
    (h : (finish m l none).inLiteral = false) : ReadsAs id m (trimEnd l) l := by
  obtain ⟨b, hb, hblank⟩ := exists_trimEnd l
  generalize trimEnd l = k at hb
  subst hb
  have hinert : ∀ c ∈ b, isInert c = true := by
    intro c hc
    refine isInert_of_isBlank (hblank c hc) ?_
    rintro rfl
    exact hl (List.mem_append_right k hc)
  by_cases hnil : b = []
  · subst hnil
    rw [List.append_nil] at h ⊢
    exact ⟨h, (List.map_id _).symm, rfl⟩
  · -- White space leads behind the mode in which it begins, and no further.
    have hproper := isProper_finish hm k none
    have hfinish : finish m (k ++ b) none = (finish m k none).behind := by
      have hrun := finish_run hproper hnil hinert [] none
      rw [List.append_nil] at hrun
      rw [finish_append_of_apart (apart_of_isInert hinert), hrun, finish_nil]
    rw [hfinish, behind_inLiteral] at h
    have hrest := litFrom_unquoted hproper (fun c hc => not_isQuote_of_isInert (hinert c hc))
      (newline_not_mem_of_isInert hinert) []
    rw [List.append_nil] at hrest
    refine ⟨h, ?_, ?_⟩
    · rw [litFrom_append_of_settled (apart_of_isInert hinert) h, hrest, List.map_id]
      simp
    · rw [exit_eq m (k ++ b), hfinish, exit_behind _ h, ← exit_eq]

/-- A line that ends outside literals leads to code or a block comment. -/
theorem exit_opens {m : Mode} {l : Text} (h : (finish m l none).inLiteral = false) : exit m l = .code ∨ exit m l = .block := by
  rw [exit_eq]
  cases hfinish : finish m l none with
  | literal q => rw [hfinish] at h; cases h
  | escaped q => rw [hfinish] at h; cases h
  | blockOpens => exact .inr rfl
  | block => exact .inr rfl
  | _ => exact .inl rfl

section
variable {m : Mode} (hm : m = .code ∨ m = .block) {u : Text} (hu : ∀ c ∈ u, isInert c = true)

include hm hu

/-- Where code or a block comment is open, inert characters change nothing. -/
theorem finish_inert (r : Text) (next : Option Char) : finish m (u ++ r) next = finish m r next := by
  by_cases hnil : u = []
  · rw [hnil, List.nil_append]
  · rcases hm with rfl | rfl
    · exact finish_run rfl hnil hu r next
    · exact finish_run rfl hnil hu r next

theorem litFrom_inert (r : Text) : litFrom m (u ++ r) = litFrom m r := by
  have hproper : m.isProper = true := by rcases hm with rfl | rfl <;> rfl
  have hout : m.inLiteral = false := by rcases hm with rfl | rfl <;> rfl
  have hfinish : finish m u r.head? = m := by simpa using finish_inert hm hu [] r.head?
  rw [litFrom_unquoted hproper (fun c hc => not_isQuote_of_isInert (hu c hc)) (newline_not_mem_of_isInert hu), hfinish,
    hout]
  exact Prod.ext (litFrom_fst_of_not_inLiteral hout r).symm rfl

end

theorem readsAs_dropAbstract {m : Mode} (hm : m = .code ∨ m = .block) {l : Text} (hl : '\n' ∉ l)
    (h : (finish m l none).inLiteral = false) : ReadsAs id m (dropAbstract l) l := by
  cases hopens : opensAbstract l with
  | false =>
    rw [dropAbstract_of_not_opens hopens]
    exact ⟨h, (List.map_id _).symm, rfl⟩
  | true =>
    obtain ⟨pre, gap, member, hl', hdrop, hpre, hgap⟩ := dropAbstract_of_opens hopens
    have hblank : ∀ c ∈ l, isBlank c = true → isInert c = true := by
      intro c hc hblank
      refine isInert_of_isBlank hblank ?_
      rintro rfl
      exact hl hc
    have hpublic : ∀ c ∈ text "public", isInert c = true := List.all_eq_true.1 (by decide)
    have habstract : ∀ c ∈ text "abstract", isInert c = true := List.all_eq_true.1 (by decide)
    rw [← List.append_assoc, ← List.append_assoc, List.append_assoc pre] at hl'
    have hinert : ∀ c ∈ pre ++ (text "abstract" ++ gap), isInert c = true := by
      intro c hc
      have hcl : c ∈ l := hl' ▸ List.mem_append_left member hc
      simp only [List.mem_append] at hc
      rcases hc with hc | hc | hc
      · exact (hpre c hc).elim (hblank c hcl) (hpublic c)
      · exact habstract c hc
      · exact hblank c hcl (hgap c hc)
    have hinertPre : ∀ c ∈ pre, isInert c = true := fun c hc => hinert c (List.mem_append_left _ hc)
    rw [hdrop]
    refine ⟨?_, ?_, ?_⟩
    · rwa [hl', finish_inert hm hinert, ← finish_inert hm hinertPre] at h
    · rw [hl', litFrom_inert hm hinert, litFrom_inert hm hinertPre, List.map_id]
    · rw [hl', exit_eq m (pre ++ member), exit_eq m (pre ++ (text "abstract" ++ gap) ++ member), finish_inert hm hinert,
        finish_inert hm hinertPre]

/-! ## Files -/

/-- What the repairs of lines make of a literal on its own. -/
def fixedLiteral (className l : Text) : Text := qualifyInner className none (trimZeros l)

/-- Fixing up a file leaves its literals as they are. -/
def KeepsLiterals (o : FixupOptions) (fileName t : Text) : Prop := literals (fixup o fileName t) = literals t

section
variable {className : Text} (hname : ∀ c ∈ className, isQuote c = false) (isInterface : Bool)
  {m : Mode} (hm : m = .code ∨ m = .block)

include hname

theorem literalWise_fixedLiteral : LiteralWise (fixedLiteral className) :=
  (recasts_qualifyInner hname).literalWise.comp recasts_trimZeros.literalWise

include hm

/-- **A fixed line is read as the line**, with each literal as it would be fixed on its own. -/
theorem readsAs_fixLine {l : Text} (hl : '\n' ∉ l) (h : (finish m l none).inLiteral = false) :
    ReadsAs (fixedLiteral className) m (fixLine className isInterface l) l := by
  have hproper : m.isProper = true := by rcases hm with rfl | rfl <;> rfl
  have hwise := literalWise_fixedLiteral hname
  have hend := readsAs_trimEnd hproper hl h
  have hlend : '\n' ∉ trimEnd l := by
    obtain ⟨b, hb, -⟩ := exists_trimEnd l
    intro hmem
    exact hl (hb ▸ List.mem_append_left b hmem)
  have hfixed : ReadsAs (fixedLiteral className) m (fixedLiteral className (trimEnd l)) l := by
    have hfinish := hwise.finish hproper hlend
    refine ⟨?_, ?_, ?_⟩
    · rw [hfinish]
      exact hend.settled
    · rw [hwise.litFrom hproper hlend, hend.literals, List.map_id]
    · rw [exit_eq, hfinish, ← exit_eq, hend.exit]
  cases isInterface with
  | false => exact hfixed
  | true =>
    exact (readsAs_dropAbstract hm (hwise.line hlend) hfixed.settled).trans hfixed

/-- **The literals of fixed lines** are those of the lines, each as it would be fixed on its own. -/
theorem litLines_fixLines {ls : List Text} (hls : ∀ l ∈ ls, '\n' ∉ l) (h : SettledLines m ls) :
    SettledLines m (fixLines className isInterface ls)
      ∧ litLines m (fixLines className isInterface ls) = (litLines m ls).map (fixedLiteral className) := by
  induction ls generalizing m with
  | nil => exact ⟨trivial, rfl⟩
  | cons l ls ih =>
    obtain ⟨hl, hls⟩ := List.forall_mem_cons.1 hls
    obtain ⟨hsettled, h⟩ := h
    by_cases hsuper : isEmptySuper l = true
    · -- The line that goes has no literal, and the next one begins as it did.
      have hinert : ∀ c ∈ l, isInert c = true := by
        have hword : ∀ c ∈ text "super();", isInert c = true := List.all_eq_true.1 (by decide)
        intro c hc
        rcases mem_of_isEmptySuper hsuper c hc with hblank | hmem
        · refine isInert_of_isBlank hblank ?_
          rintro rfl
          exact hl hc
        · exact hword c hmem
      have hexit : exit m l = m := by
        rw [exit_eq, ← List.append_nil l, finish_inert hm hinert]
        rcases hm with rfl | rfl <;> rfl
      have hnone : (litFrom m l).2 = [] := by
        rw [← List.append_nil l, litFrom_inert hm hinert, litFrom_nil]
      have hrest := ih hm hls (hexit ▸ h)
      simpa [fixLines, hsuper, litLines, hexit, hnone] using hrest
    · have hline := readsAs_fixLine hname isInterface hm hl hsettled
      have hrest := ih (exit_opens hsettled) hls h
      have hcons : fixLines className isInterface (l :: ls) =
          fixLine className isInterface l :: fixLines className isInterface ls := by
        simp [fixLines, hsuper]
      rw [hcons, litLines, litLines, SettledLines, hline.exit, hline.literals, hrest.2, List.map_append]
      exact ⟨⟨hline.settled, hrest.1⟩, rfl⟩

end

theorem not_isQuote_className {fileName : Text} (hname : ∀ c ∈ fileName, isQuote c = false) :
    ∀ c ∈ classNameOf fileName, isQuote c = false := by
  unfold classNameOf
  cases hsuffix : dropSuffix? (text ".java") fileName with
  | none => exact hname
  | some name =>
    intro c hc
    refine hname c ?_
    rw [dropSuffix?_eq_some.1 hsuffix]
    exact List.mem_append_left _ hc

/-- **Fixing up a file keeps its literals** exactly if trimming zeros and qualifying inner classes would leave each of
    them alone on its own. The options, calls of the superclass and members of interfaces make no difference. -/
theorem keepsLiterals_iff (o : FixupOptions) {fileName t : Text} (hname : ∀ c ∈ fileName, isQuote c = false)
    (hlf : '\r' ∉ t) (hclosed : ∀ l ∈ literals t, IsClosed l) :
    literals (fixup o fileName t) = (literals t).map (fixedLiteral (classNameOf fileName))
      ∧ (KeepsLiterals o fileName t ↔ ∀ l ∈ literals t, fixedLiteral (classNameOf fileName) l = l) := by
  obtain ⟨hsettled, hlines⟩ := literals_lines hlf hclosed
  have hfixed := litLines_fixLines (not_isQuote_className hname) (o.fixInterfaces && (lines t).any isInterfaceLine) (.inl rfl)
    (fun l hl => (not_mem_lines hl).1) hsettled
  have heq : literals (fixup o fileName t) = (literals t).map (fixedLiteral (classNameOf fileName)) := by
    rw [literals_eq (fixup o fileName t), fixup_eq, litFrom_unlines hfixed.1, hfixed.2, hlines]
  refine ⟨heq, ?_⟩
  rw [KeepsLiterals, heq]
  have hid : (literals t).map id = literals t := List.map_id _
  exact ⟨fun h => List.map_inj_left.1 (h.trans hid.symm), fun h => (List.map_inj_left.2 h).trans hid⟩

/-- A class with a version number in a string. -/
def versionField : Text := text "class A \x7b\n   String v = \"1.50\";\n\x7d\n"

theorem literals_fixup_version : literals (fixup ⟨true⟩ (text "A.java") versionField) = [text "\"1.5\""] := by
  have hname : ∀ c ∈ text "A.java", isQuote c = false :=
    fun c hc => Bool.eq_false_iff.2 (List.any_eq_false.1 (by decide) c hc)
  have hlf : '\r' ∉ versionField := by decide +kernel
  have hclosed : ∀ l ∈ literals versionField, IsClosed l := by decide +kernel
  exact (keepsLiterals_iff ⟨true⟩ hname hlf hclosed).1.trans (by decide +kernel)

/-- **A version number in a string is trimmed** as a fraction in code is. -/
theorem not_keepsLiterals_version :
    ¬ ∀ (o : FixupOptions) (fileName t : Text), '\r' ∉ t → (∀ l ∈ literals t, IsClosed l) → KeepsLiterals o fileName t := by
  intro h
  have hkeeps := h ⟨true⟩ (text "A.java") versionField (by decide +kernel) (by decide +kernel)
  rw [KeepsLiterals] at hkeeps
  exact absurd hkeeps (by decide +kernel)

end JavaMend.Java
