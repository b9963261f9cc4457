import JavaMend.Diff.Engine
import JavaMend.Proofs.Diff.Leftovers
import JavaMend.Proofs.Lines

/-!
# `Proofs.Diff.LineTexts` — the texts of a patch are lines

What a hunk keeps, removes or adds is the rest of a line of its diff, so it holds no line terminator. A document to which
hunks are applied consists of its own lines and added ones. So the text that results from a patch can be taken apart into
these lines again, and has `\n` for all its terminators.

## Contents
- **Reading.** `suffix_of_bodyLine`, `isLine_of_readBody`, `isLine_of_mem_hunkSites`; `Patch.Lined`, `lined_of_parseAll`.
- **Applying.** `isLine_of_mem_after`, `mem_applyHunks`; `isLine_of_mem_applyHunks`, `carriageReturn_not_mem_probe`.
-/

namespace JavaMend.Diff

open JavaMend Text

/-! ## Reading -/

theorem isLine_of_suffix {s t : Text} (h : s <:+ t) (ht : IsLine t) : IsLine s :=
  ⟨fun hc => ht.1 (h.subset hc), fun hc => ht.2 (h.subset hc)⟩

/-- The text of an edit is the rest of its line. -/
theorem suffix_of_bodyLine {l : Text} {e : HunkLine} (h : BodyLine.of? l = some (.edit e)) : e.text <:+ l := by
  unfold BodyLine.of? at h
  split at h
  · cases h
    exact List.suffix_rfl
  · cases h
    exact List.suffix_cons ..
  · cases h
    exact List.suffix_cons ..
  · cases h
    exact List.suffix_cons ..
  · cases h
  · cases h

section
variable {oldLength newLength old new : Nat} {ls : List Text}

/-- The texts of a body are lines, if it is read from lines. -/
theorem isLine_of_readBody (hls : ∀ l ∈ ls, IsLine l) :
    ∀ e ∈ (readBody oldLength newLength old new ls).1, IsLine e.text := by
  induction ls generalizing old new with
  | nil => simp [readBody]
  | cons l ls ih =>
    have hrest : ∀ k ∈ ls, IsLine k := fun k hk => hls k (List.mem_cons_of_mem l hk)
    unfold readBody
    split
    · split
      · simp
      · exact ih hrest
      · rename_i e hbody
        intro d hd
        rcases List.mem_cons.1 hd with rfl | hd
        · exact isLine_of_suffix (suffix_of_bodyLine hbody) (hls l List.mem_cons_self)
        · exact ih hrest d hd
    · simp

/-- What remains behind a body is the rest of the lines. -/
theorem suffix_readBody : (readBody oldLength newLength old new ls).2 <:+ ls := by
  induction ls generalizing old new with
  | nil => exact List.suffix_rfl
  | cons l ls ih =>
    unfold readBody
    split
    · split
      · exact List.suffix_rfl
      · exact ih.trans (List.suffix_cons l ls)
      · exact ih.trans (List.suffix_cons l ls)
    · exact List.suffix_rfl

end

/-- A hunk has the body that is read behind its header; what remains is the rest of the lines. -/
theorem body_of_readHunk {header : Text} {ls rest : List Text} {hunk : Hunk}
    (h : readHunk header ls = .ok (hunk, rest)) :
    hunk.lines = (readBody hunk.old.length hunk.new.length 0 0 ls).1 ∧ rest <:+ ls := by
  have hread := hunkRead_of_readHunk h
  refine ⟨hread.lines, ?_⟩
  rw [hread.behind]
  exact (List.dropWhile_suffix _).trans suffix_readBody

/-- The texts of the hunks in a diff are lines. -/
theorem isLine_of_mem_hunkSites {ls : List Text} (hls : ∀ l ∈ ls, IsLine l) {site : Hunk × List Text}
    (h : site ∈ hunkSites ls) : ∀ e ∈ site.1.lines, IsLine e.text := by
  fun_induction hunkSites ls with
  | case1 => cases h
  | case2 l ls hs ih =>
    exact ih (fun k hk => hls k (List.mem_cons_of_mem l (List.mem_of_mem_tail hk))) h
  | case3 => cases h
  | case4 l ls hs hat hunk rest hread ih =>
    obtain ⟨hbody, hrest⟩ := body_of_readHunk hread
    rcases List.mem_cons.1 h with rfl | h
    · rw [hbody]
      exact isLine_of_readBody fun k hk => hls k (List.mem_cons_of_mem l hk)
    · exact ih (fun k hk => hls k (List.mem_cons_of_mem l (hrest.subset hk))) h
  | case5 l ls hs hat ih => exact ih (fun k hk => hls k (List.mem_cons_of_mem l hk)) h

/-- **The texts of the patch are lines.** -/
def Patch.Lined (p : Patch) : Prop := ∀ h ∈ p.hunks, ∀ e ∈ h.lines, IsLine e.text

/-- **The texts of every patch that is read are lines.** -/
theorem lined_of_parseAll {diff : Text} {strip : Nat} {ps : List Patch} (h : parseAll diff strip = .ok ps) :
    ∀ p ∈ ps, p.Lined := by
  intro p hp k hk
  obtain ⟨site, hsite, rfl⟩ := exists_site_of_parseAll h hp hk
  exact isLine_of_mem_hunkSites (fun _ => not_mem_lines) hsite

/-! ## Applying -/

/-- The after images of a patch consist of its texts. -/
theorem isLine_of_mem_after {p : Patch} (hp : p.Lined) {h : Hunk} (hh : h ∈ p.hunks) {l : Text} (hl : l ∈ h.after) :
    IsLine l := by
  obtain ⟨e, he, rfl⟩ := List.mem_map.1 hl
  exact hp h hh e (List.mem_filter.1 he).1

section
variable {o : Options}

/-- A hunk brings lines of its after image only. -/
theorem mem_applyHunk {h : Hunk} {st : Progress} {l : Text} (hl : l ∈ (applyHunk o h st).2.doc) :
    l ∈ st.doc ∨ l ∈ h.after := by
  unfold applyHunk at hl
  simp only at hl
  split at hl
  · simp only [splice, List.mem_append] at hl
    rcases hl with (hl | hl) | hl
    · exact .inl (List.mem_of_mem_take hl)
    · exact .inr hl
    · exact .inl (List.mem_of_mem_drop hl)
  · exact .inl hl

/-- Hunks bring lines of their after images only. -/
theorem mem_applyHunks {hs : List Hunk} {st : Progress} {l : Text} (hl : l ∈ (applyHunks o hs st).2.doc) :
    l ∈ st.doc ∨ ∃ h ∈ hs, l ∈ h.after := by
  induction hs generalizing st with
  | nil => exact .inl hl
  | cons h hs ih =>
    rcases ih hl with hl | ⟨k, hk, hl⟩
    · exact (mem_applyHunk hl).imp id fun hl => ⟨h, List.mem_cons_self, hl⟩
    · exact .inr ⟨k, List.mem_cons_of_mem h hk, hl⟩

/-- A patch whose texts are lines keeps a document a row of lines. -/
theorem isLine_of_mem_applyHunks {p : Patch} (hp : p.Lined) {st : Progress} (hst : ∀ l ∈ st.doc, IsLine l) :
    ∀ l ∈ (applyHunks o p.hunks st).2.doc, IsLine l := by
  intro l hl
  rcases mem_applyHunks hl with hl | ⟨h, hh, hl⟩
  · exact hst l hl
  · exact isLine_of_mem_after hp hh hl

/-- The lines of what a patch finds are lines. -/
theorem isLine_of_targetOf {p : Patch} {s : Store} {doc : Document} (h : targetOf p s = .ok doc) :
    ∀ l ∈ doc.lines, IsLine l := by
  unfold targetOf at h
  split at h
  · cases h
    exact fun _ => not_mem_lines
  · cases h
  · split at h
    · cases h
      simp
    · cases h

/-- **No carriage return is in a text that results from a patch**, whatever ended the lines of its target. -/
theorem carriageReturn_not_mem_probe {p : Patch} (hp : p.Lined) {s : Store} {t : Text}
    (h : (probe o p s).2 = some t) : '\r' ∉ t := by
  unfold probe at h
  split at h
  · cases h
  · rename_i doc hdoc
    simp only [Option.ite_none_right_eq_some, Option.some.injEq] at h
    rw [← h.2, Document.toText]
    exact not_mem_unlines (by decide) (fun l hl => (isLine_of_mem_applyHunks hp (isLine_of_targetOf hdoc) l hl).2) _

end
end JavaMend.Diff
