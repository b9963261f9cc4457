import JavaMend.Proofs.Java.Measures
import JavaMend.Proofs.Java.Runs

/-!
# `Proofs.Java.RunMeasure` — runs of names that repair does not add

Repairing imports writes two kinds of names that a text did not have there: the qualified name of a new import, and the
simple name that is left of it in the body. Where runs are counted of which neither can be one, repair adds none.

## Contents
- **Blanks.** `joinsName_of_isBlank`; `total_words`, `starts_trim`.
- **Import lines.** `starts_importLine`.
- **Shortening.** `editsStarts_written`; `starts_shorten_le`.
- **Repair.** `Foreign`; `Foreign.importMeasure`.
-/

namespace JavaMend.Java

open JavaMend Text

variable {A : Text → Bool}

/-! ## Blanks -/

/-- The code points of white space. -/
def blankCodes : List Nat :=
  List.range' 0x9 5 ++ [0x20, 0x85, 0xA0, 0x1680] ++ List.range' 0x2000 11 ++ [0x2028, 0x2029, 0x202F, 0x205F, 0x3000]

theorem toNat_mem_blankCodes {c : Char} (h : isBlank c = true) : c.toNat ∈ blankCodes := by
  simp only [isBlank, Bool.or_eq_true, Bool.and_eq_true, decide_eq_true_eq, beq_iff_eq] at h
  simp only [blankCodes, List.mem_append, List.mem_range'_1, List.mem_cons, List.not_mem_nil, or_false]
  omega

/-- No name goes on at white space. -/
theorem joinsName_of_isBlank {c : Char} (h : isBlank c = true) : joinsName c = false := by
  have hall : (blankCodes.all fun n => !joinsName (Char.ofNat n)) = true := by decide +kernel
  have hc := List.all_eq_true.1 hall c.toNat (toNat_mem_blankCodes h)
  rwa [Char.ofNat_toNat, Bool.not_eq_true'] at hc

/-- A text has the runs of its words. -/
theorem total_words (t : Text) : total (starts A none) (words t) = starts A none t := by
  -- What was read of a word is kept in front until a blank or the end comes.
  have hword {w : Text} (hw : ∀ c ∈ w, isBlank c = false) : total (starts A none) (words w) = starts A none w := by
    cases w with
    | nil => rfl
    | cons c w => rw [words_of_forall_not_blank (by simp) hw, total_cons, total_nil, Nat.add_zero]
  have hkept (t : Text) : ∀ w, (∀ c ∈ w, isBlank c = false) →
      total (starts A none) (words (w ++ t)) = starts A none (w ++ t) := by
    induction t with
    | nil =>
      intro w hw
      rw [List.append_nil]
      exact hword hw
    | cons c t ih =>
      intro w hw
      cases hc : isBlank c with
      | true =>
        rw [words_append_blank hc, total_append, hword hw, starts_append_gap (joinsName_of_isBlank hc)]
        exact congrArg (starts A none w + ·) (ih [] (by simp))
      | false =>
        have h := ih (w ++ [c]) fun d hd => (List.mem_append.1 hd).elim (hw d) fun hd => List.mem_singleton.1 hd ▸ hc
        rwa [List.append_assoc, List.singleton_append] at h
  exact hkept t [] (by simp)

/-- Trimming keeps the runs. -/
theorem starts_trim (t : Text) : starts A none (trim t) = starts A none t := by
  rw [← total_words (trim t), words_trim, total_words]

theorem starts_joinWith_words (t : Text) : starts A none (joinWith [' '] (words t)) = starts A none t := by
  have hspace (u v : Text) : starts A none (u ++ ([' '] ++ v)) = starts A none u + starts A none v :=
    starts_append_gap (joinsName_of_isBlank isBlank_space) none u v
  rw [total_joinWith rfl hspace, total_words]

/-! ## Import lines -/

/-- An import has the runs of its target, and the word that opens it. -/
theorem starts_importLine (h : A (text "import") = false) (target : Text) :
    starts A none (importLine target) = starts A none target := by
  have hword : starts A none (text "import") = 0 := by
    have hall : (text "import").all joinsName = true := by decide +kernel
    have hcount := starts_run (A := A) (by decide) (List.all_eq_true.1 hall) none []
    rw [List.append_nil] at hcount
    rw [hcount, runOf, List.takeWhile_nil, List.append_nil, h]
    rfl
  have hspace : joinsName ' ' = false := joinsName_of_isBlank isBlank_space
  have hsemicolon : joinsName ';' = false := by decide +kernel
  have hopens : text "import " = text "import" ++ [' '] := by decide
  have happend (word : Text) : word ++ [' '] ++ target ++ [';'] = word ++ ' ' :: (target ++ [';']) := by simp
  have hline : importLine target = text "import" ++ ' ' :: (target ++ [';']) := by
    unfold importLine
    rw [hopens, happend]
  have htarget := starts_append_gap (A := A) hsemicolon none target []
  rw [starts_nil, Nat.add_zero] at htarget
  rw [hline, starts_append_gap hspace, hword, htarget, Nat.zero_add]

/-! ## Shortening -/

theorem isIdentChar_of_inClassName {c : Char} (h : inClassName c = true) : isIdentChar c = true := by
  simp only [inClassName, Bool.or_eq_true, beq_iff_eq] at h
  rcases h with (((hupper | hlower) | hdigit) | rfl) | rfl
  · simp [isIdentChar, isAlphanumeric, isLetter_of_upper hupper]
  · simp [isIdentChar, isAlphanumeric, isLetter_of_lower hlower]
  · have hb : c.toNat < 0x80 := by
      simp only [isAsciiDigit, Bool.and_eq_true, decide_eq_true_eq] at hdigit
      omega
    simp [isIdentChar, isAlphanumeric, isDecimalDigit, hb, hdigit]
  · simp [isIdentChar]
  · exact isIdentChar_dollar

theorem joinsName_of_inClassName {c : Char} (h : inClassName c = true) : joinsName c = true := by
  simp [joinsName, isIdentChar_of_inClassName h]

theorem joinsName_of_inPackage {c : Char} (h : inPackage c = true) : joinsName c = true := by
  rcases Bool.or_eq_true_iff.1 h with h | h
  · exact joinsName_of_inClassName (inClassName_of_inSegment h)
  · simp [joinsName, h]

/-- A qualified name is one run. -/
theorem joinsName_full {q : Qualified} (h : q.Proper) : ∀ c ∈ q.full, joinsName c = true := by
  intro c hc
  rcases mem_full h hc with hpackage | hname
  · exact joinsName_of_inPackage hpackage
  · exact joinsName_of_inClassName hname

/-- Shortening changes names at the starts of runs. -/
theorem editsStarts_written {short : Qualified → Bool} (h : ∀ q, short q = true → q.joined = false) :
    EditsStarts findQualified (written short) where
  faithful := faithful_findQualified
  run hfind := by
    obtain ⟨rfl, -, hproper⟩ := findQualified_spec hfind
    exact joinsName_full hproper
  written {before t found q} hfind := by
    obtain ⟨-, -, hproper⟩ := findQualified_spec hfind
    unfold Java.written
    split
    · rename_i hshort
      obtain ⟨u, n, hname, -⟩ := hproper.opens
      -- A name that is shortened is not joined to a longer one.
      have hgap : before.any joinsName = false := by
        obtain ⟨root, -, rest, package, name, -, -, rfl, -⟩ := findQualified_eq_some hfind
        rw [← h _ hshort]
        unfold joinsName
        congr 1
        funext c
        exact Bool.or_comm _ _
      exact .inr ⟨hgap, by simp [hname], fun c hc => joinsName_of_inClassName (hproper.name c hc)⟩
    · exact .inl rfl

/-! ## Repair -/

/-- **Runs that repair does not write**: neither the word that opens an import, nor a simple name, nor a name below a
    root package. -/
structure Foreign (A : Text → Bool) : Prop where
  notImport : A (text "import") = false
  notSimple : ∀ {u r}, isAsciiUpper u = true → A (u :: r) = false
  notQualified : ∀ {root r}, root ∈ rootPackages → A (root ++ '.' :: r) = false

namespace Foreign

variable (hA : Foreign A)

include hA

theorem starts_substitute_le {short : Qualified → Bool} (h : ∀ q, short q = true → q.joined = false) (code : Text) :
    starts A none (substitute findQualified (written short) code) ≤ starts A none code := by
  rw [substitute_eq_edited]
  refine starts_edited_le (editsStarts_written h) (fun before t _ _ hrun => hrun) ?_ none code
  intro before m q rest hfind hchanged
  obtain ⟨rfl, -, hproper⟩ := findQualified_spec hfind
  obtain ⟨u, n, hname, hu⟩ := hproper.opens
  unfold written at hchanged ⊢
  split
  · rw [hname, List.cons_append]
    exact hA.notSimple hu
  · rename_i hkeep
    rw [if_neg hkeep] at hchanged
    exact absurd rfl hchanged

/-- The names that are to be imported are none of the runs. -/
theorem total_full {qs : List Qualified} (h : ∀ q ∈ qs, ∃ before t m, findQualified before t = some (m, q)) :
    total (starts A none) (qs.map Qualified.full) = 0 := by
  induction qs with
  | nil => rfl
  | cons q qs ih =>
    obtain ⟨⟨before, t, m, hfind⟩, hqs⟩ := List.forall_mem_cons.1 h
    obtain ⟨-, -, hproper⟩ := findQualified_spec hfind
    obtain ⟨root, hroot, r, hfull⟩ := findQualified_root hfind
    -- The name is one run, and that opens with a root package.
    have hcount := starts_run (A := A) (by simp [Qualified.full]) (joinsName_full hproper) none []
    have hnot : A q.full = false := hfull ▸ hA.notQualified hroot
    rw [List.append_nil, runOf, List.takeWhile_nil, List.append_nil, hnot] at hcount
    rw [List.map_cons, total_cons, ih hqs, hcount]
    rfl

/-- **Shortening adds no runs**, and neither do its imports. -/
theorem starts_shorten_le (b : Bindings) (body : Text) :
    starts A none (shorten b body).1 + total (starts A none) (shorten b body).2 ≤ starts A none body := by
  have hjoined : ∀ q, usable b (qualifiedNames body) q = true → q.joined = false := by
    intro q hq
    simp only [usable, Bool.and_eq_true, Bool.not_eq_true'] at hq
    exact hq.1.1
  have himports : total (starts A none) (shorten b body).2 = 0 := by
    refine hA.total_full fun q hq => ?_
    obtain ⟨s, -, hs⟩ := List.mem_flatMap.1 (List.mem_filter.1 hq).1
    split at hs
    · obtain ⟨p, hp, hvalue⟩ := List.mem_filterMap.1 hs
      cases p with
      | plain c => cases hvalue
      | hit m q' =>
        cases hvalue
        obtain ⟨before, t, hfind⟩ := exists_find_of_mem_pieces hp
        exact ⟨before, t, m, hfind⟩
    · cases hs
  have hshort : starts A none (shorten b body).1 ≤ starts A none body := by
    rw [starts_eq_total body]
    refine (starts_mapCode (fun _ => opensGap_substitute (editsStarts_written hjoined)) body).trans_le ?_
    refine total_map_le fun s _ => ?_
    unfold editedSegment
    split
    · exact hA.starts_substitute_le hjoined s.text
    · exact Nat.le_refl _
  omega

/-- **Repair adds no such run.** -/
theorem importMeasure : ImportMeasure (starts A none) where
  nil := rfl
  newline := starts_append_gap (joinsName_of_isBlank isBlank_newline.1) none
  trim_le t := Nat.le_of_eq (starts_trim t)
  words_le t := Nat.le_of_eq (starts_joinWith_words t)
  importLine_eq := starts_importLine hA.notImport
  shorten_le := hA.starts_shorten_le

end Foreign
end JavaMend.Java
