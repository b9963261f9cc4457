import JavaMend.Proofs.Diff.Parsed

/-!
# `Proofs.Diff.Leftovers` — lines behind a hunk that nothing reads

A hunk takes as many body lines as its header declares, and is refused if the next line is a further one. The check
looks at that one line. An empty line counts as a context line while the counts are open, but not for the check: behind
it any number of edit lines may follow, which are then skipped like other lines between hunks. So a diff is read without
its surplus edits exactly where an empty line stands in front of them (`keepsEveryLine_iff`).

## Contents
- **Hunks in a diff.** `hunkSites` with `hunks_of_parseAll`: they are the hunks of the patches that are read.
- **Leftover lines.** `isEdit`, `leftover`, `KeepsEveryLine`.
- **Hidden edits.** `HidesEdit`; `exists_edit_leftover_iff`; `keepsEveryLine_iff`, `not_keepsEveryLine_surplus`.
-/

namespace JavaMend.Diff

open JavaMend Text

/-! ## Hunks in a diff -/

/-- The hunks that are read from the lines of a diff, each with the lines after it. -/
def hunkSites : List Text → List (Hunk × List Text)
  | []      => []
  | l :: ls =>
    if (sectionHeader? l ls).isSome then hunkSites ls.tail
    else if startsWith (text "@@") l then
      match _h : readHunk l ls with
      | .error _         => []
      | .ok (hunk, rest) => (hunk, rest) :: hunkSites rest
    else hunkSites ls
termination_by ls => ls.length
decreasing_by
  · simp only [List.length_cons, List.length_tail]; omega
  · have := length_readHunk_le _h
    simp only [List.length_cons]; omega
  · simp

section
variable {l : Text} {ls rest : List Text}

theorem hunkSites_of_section (h : (sectionHeader? l ls).isSome = true) : hunkSites (l :: ls) = hunkSites ls.tail := by
  rw [hunkSites, if_pos h]

theorem hunkSites_of_hunk {hunk : Hunk} (h : sectionHeader? l ls = none) (hat : startsWith (text "@@") l = true)
    (hread : readHunk l ls = .ok (hunk, rest)) : hunkSites (l :: ls) = (hunk, rest) :: hunkSites rest := by
  rw [hunkSites, h, Option.isSome_none, if_neg Bool.false_ne_true, if_pos hat]
  split
  · rename_i herror
    rw [hread] at herror
    cases herror
  · rename_i hok
    rw [hread] at hok
    cases hok
    rfl

theorem hunkSites_of_other (h : sectionHeader? l ls = none) (hat : ¬ startsWith (text "@@") l = true) :
    hunkSites (l :: ls) = hunkSites ls := by
  rw [hunkSites, h, Option.isSome_none, if_neg Bool.false_ne_true, if_neg hat]

end

/-- A hunk in a diff is read there. -/
theorem exists_readHunk_of_mem {ls : List Text} {site : Hunk × List Text} (h : site ∈ hunkSites ls) :
    ∃ header behind, readHunk header behind = .ok site := by
  fun_induction hunkSites ls with
  | case1 => cases h
  | case2 l ls hs ih => exact ih h
  | case3 => cases h
  | case4 l ls hs hat hunk rest hread ih =>
    rcases List.mem_cons.1 h with rfl | h
    · exact ⟨l, ls, hread⟩
    · exact ih h
  | case5 l ls hs hat ih => exact ih h

/-- What comes after a hunk in a diff can follow a hunk. -/
theorem follows_of_mem_hunkSites {ls : List Text} {site : Hunk × List Text} (h : site ∈ hunkSites ls) :
    Follows site.2 := by
  obtain ⟨header, behind, hread⟩ := exists_readHunk_of_mem h
  exact follows_of_readHunk hread

/-- **The sites are those of the hunks that are read**: after those of the open section, the sections hold the hunks of
    the sites, in order. -/
theorem SectionsRead.hunks {strip : Nat} {current : Option Patch} {ls : List Text} {ps : List Patch}
    (h : SectionsRead strip current ls ps) :
    ps.flatMap Patch.hunks = current.toList.flatMap Patch.hunks ++ (hunkSites ls).map Prod.fst := by
  induction h with
  | ends _ => rw [hunkSites, List.map_nil, List.append_nil]
  | opens hs _ _ _ ih =>
    rw [List.flatMap_append, ih, hunkSites_of_section (by rw [hs]; rfl)]
    simp
  | hunk hs hat hread _ ih =>
    rw [ih, hunkSites_of_hunk hs hat hread]
    simp
  | chatter hs hat _ ih => rw [ih, hunkSites_of_other hs hat]

section
variable {diff : Text} {strip : Nat} {ps : List Patch}

/-- The hunks of the patches that are read from a diff are those of its sites. -/
theorem hunks_of_parseAll (h : parseAll diff strip = .ok ps) :
    ps.flatMap Patch.hunks = (hunkSites (lines diff)).map Prod.fst :=
  (sectionsRead_of_parseAll h).hunks

theorem exists_site_of_parseAll (h : parseAll diff strip = .ok ps) {p : Patch} (hp : p ∈ ps) {k : Hunk}
    (hk : k ∈ p.hunks) : ∃ site ∈ hunkSites (lines diff), site.1 = k := by
  have hmem : k ∈ (hunkSites (lines diff)).map Prod.fst := by
    rw [← hunks_of_parseAll h]
    exact List.mem_flatMap.2 ⟨p, hp, hk⟩
  exact List.mem_map.1 hmem

end

/-! ## Leftover lines -/

/-- The line keeps, removes or adds a text. -/
def isEdit (l : Text) : Bool := l.head? == some ' ' || l.head? == some '-' || l.head? == some '+'

/-- The lines after a hunk that could stand in its body: up to the next hunk, the next section, or a line that can
    stand in no body. -/
def leftover : List Text → List Text
  | []      => []
  | l :: ls =>
    if startsWith (text "@@") l || (sectionHeader? l ls).isSome || (BodyLine.of? l).isNone then [] else l :: leftover ls

/-- **No edit is lost**: none of the lines left over behind a hunk keeps, removes or adds a text. -/
def KeepsEveryLine (ls : List Text) : Prop := ∀ site ∈ hunkSites ls, ∀ l ∈ leftover site.2, isEdit l = false

/-- A line can stand in a body exactly if it is empty, a remark or an edit. -/
theorem isSome_bodyLine_iff (l : Text) :
    (BodyLine.of? l).isSome = true ↔ l = [] ∨ isRemark l = true ∨ isEdit l = true := by
  cases l with
  | nil => simp [BodyLine.of?]
  | cons c t =>
    unfold BodyLine.of?
    split <;> simp_all [isRemark, isEdit]

/-! ## Hidden edits -/

/-- Empty lines and remarks, which say nothing behind a hunk. -/
def isGap (l : Text) : Bool := l.isEmpty || isRemark l

/-- **A hidden edit**: an empty line, then perhaps more empty lines and remarks, then an edit that opens no section. -/
def HidesEdit (ls : List Text) : Prop :=
  ∃ gap edit more, ls = [] :: (gap ++ edit :: more) ∧ (∀ l ∈ gap, isGap l = true) ∧ isEdit edit = true
    ∧ sectionHeader? edit more = none

/-- A gap line opens neither a hunk nor a section. -/
theorem leftover_gap_cons {l : Text} (h : isGap l = true) (ls : List Text) : leftover (l :: ls) = l :: leftover ls := by
  cases l with
  | nil => rfl
  | cons c t =>
    obtain rfl : c = '\\' := by simpa [isGap, isRemark] using h
    rfl

theorem leftover_gap_append {gap : List Text} (h : ∀ l ∈ gap, isGap l = true) (ls : List Text) :
    leftover (gap ++ ls) = gap ++ leftover ls := by
  induction gap with
  | nil => rfl
  | cons l gap ih =>
    rw [List.cons_append, leftover_gap_cons (h l List.mem_cons_self), ih fun k hk => h k (List.mem_cons_of_mem l hk),
      List.cons_append]

/-- An edit that opens no section is left over. -/
theorem leftover_edit_cons {l : Text} {ls : List Text} (h : isEdit l = true) (hs : sectionHeader? l ls = none) :
    leftover (l :: ls) = l :: leftover ls := by
  have hbody : (BodyLine.of? l).isSome = true := (isSome_bodyLine_iff l).2 (.inr (.inr h))
  have hat : startsWith (text "@@") l = false := by
    cases l with
    | nil => rfl
    | cons c t =>
      have hc : c ≠ '@' := by
        rintro rfl
        simp [isEdit] at h
      change (dropPrefix? ('@' :: ['@']) (c :: t)).isSome = false
      rw [dropPrefix?, if_neg (Ne.symm hc), Option.isSome_none]
  simp [leftover, hat, hs, Option.isNone_eq_false_iff.2 hbody]

/-- Among leftover lines the first edit comes after a gap. -/
theorem gap_before_edit {ls : List Text} {e : Text} (he : e ∈ leftover ls) (hedit : isEdit e = true) :
    ∃ gap edit more, ls = gap ++ edit :: more ∧ (∀ l ∈ gap, isGap l = true) ∧ isEdit edit = true
      ∧ sectionHeader? edit more = none := by
  induction ls with
  | nil => cases he
  | cons l ls ih =>
    rw [leftover] at he
    split at he
    · cases he
    · rename_i hstop
      simp only [Bool.or_eq_true, not_or, Bool.not_eq_true, Option.isSome_eq_false_iff, Option.isNone_iff_eq_none]
        at hstop
      obtain ⟨⟨-, hs⟩, hbody⟩ := hstop
      replace hbody := Option.isSome_iff_ne_none.2 hbody
      by_cases hl : isEdit l = true
      · exact ⟨[], l, ls, rfl, by simp, hl, hs⟩
      · have hgap : isGap l = true := by
          rcases (isSome_bodyLine_iff l).1 hbody with rfl | h | h
          · rfl
          · simp [isGap, h]
          · exact absurd h hl
        rcases List.mem_cons.1 he with rfl | he
        · exact absurd hedit hl
        · obtain ⟨gap, edit, more, rfl, hall, hedit', hs'⟩ := ih he
          refine ⟨l :: gap, edit, more, rfl, fun k hk => ?_, hedit', hs'⟩
          rcases List.mem_cons.1 hk with rfl | hk
          · exact hgap
          · exact hall k hk

/-- **Behind a hunk an edit is left over exactly if an empty line hides it**: an edit at once would have been refused,
    and remarks at once belong to the hunk. -/
theorem exists_edit_leftover_iff {ls : List Text} (h : Follows ls) :
    (∃ e ∈ leftover ls, isEdit e = true) ↔ HidesEdit ls := by
  constructor
  · rintro ⟨e, he, hedit⟩
    obtain ⟨gap, edit, more, rfl, hgap, hedit', hs⟩ := gap_before_edit he hedit
    cases gap with
    | nil =>
      have hover : overruns (edit :: more) = true := by
        rw [overruns, hs, Option.isNone_none, Bool.true_and]
        exact hedit'
      exact absurd (hover.symm.trans h.overrun) (by decide)
    | cons l gap =>
      cases l with
      | nil => exact ⟨gap, edit, more, rfl, fun k hk => hgap k (List.mem_cons_of_mem _ hk), hedit', hs⟩
      | cons c t =>
        obtain rfl : c = '\\' := by simpa [isGap, isRemark] using hgap (c :: t) List.mem_cons_self
        have hlonger : ((gap ++ edit :: more).dropWhile isRemark).length = (gap ++ edit :: more).length + 1 :=
          congrArg List.length h.remark
        have hshorter : ((gap ++ edit :: more).dropWhile isRemark).length ≤ (gap ++ edit :: more).length :=
          (List.dropWhile_sublist _).length_le
        omega
  · rintro ⟨gap, edit, more, rfl, hgap, hedit, hs⟩
    refine ⟨edit, ?_, hedit⟩
    rw [leftover_gap_cons rfl, leftover_gap_append hgap, leftover_edit_cons hedit hs]
    simp

/-- **A diff is read without losing an edit exactly if no empty line behind a hunk hides one.** The sites looked at are
    those of the hunks that were read. -/
theorem keepsEveryLine_iff {diff : Text} {strip : Nat} {ps : List Patch} (h : parseAll diff strip = .ok ps) :
    (hunkSites (lines diff)).map Prod.fst = ps.flatMap Patch.hunks
      ∧ (KeepsEveryLine (lines diff) ↔ ∀ site ∈ hunkSites (lines diff), ¬ HidesEdit site.2) := by
  refine ⟨(hunks_of_parseAll h).symm, forall₂_congr fun site hsite => ?_⟩
  rw [← exists_edit_leftover_iff (follows_of_mem_hunkSites hsite)]
  simp

/-- A line that can stand in no body keeps an empty line from hiding what comes later. -/
theorem keepsEveryLine_chatter :
    ∃ ps, parseAll (text "--- a/F\n+++ b/F\n@@ -1,1 +1,1 @@\n-a\n+b\n\ndone\n+c\n") 1 = .ok ps
      ∧ ∀ site ∈ hunkSites (lines (text "--- a/F\n+++ b/F\n@@ -1,1 +1,1 @@\n-a\n+b\n\ndone\n+c\n")),
          ¬ HidesEdit site.2 := by
  let key : Key := ⟨text "F", by decide, by decide⟩
  let hunk : Hunk := ⟨⟨1, 1⟩, ⟨1, 1⟩, [⟨.remove, text "a"⟩, ⟨.add, text "b"⟩]⟩
  have hps : parseAll (text "--- a/F\n+++ b/F\n@@ -1,1 +1,1 @@\n-a\n+b\n\ndone\n+c\n") 1
      = .ok [⟨key, [hunk]⟩] := by decide +kernel
  have hsites : hunkSites (lines (text "--- a/F\n+++ b/F\n@@ -1,1 +1,1 @@\n-a\n+b\n\ndone\n+c\n"))
      = [(hunk, [[], text "done", text "+c"])] := by decide +kernel
  refine ⟨_, hps, (keepsEveryLine_iff hps).2.1 ?_⟩
  rw [KeepsEveryLine, hsites]
  decide

/-- An edit behind a hunk and an empty line is lost: the added line `c` is in no hunk. -/
theorem not_keepsEveryLine_surplus :
    ∃ ps, parseAll (text "--- a/F\n+++ b/F\n@@ -1,1 +1,1 @@\n-a\n+b\n\n+c\n") 1 = .ok ps
      ∧ ¬ KeepsEveryLine (lines (text "--- a/F\n+++ b/F\n@@ -1,1 +1,1 @@\n-a\n+b\n\n+c\n")) := by
  let key : Key := ⟨text "F", by decide, by decide⟩
  let hunk : Hunk := ⟨⟨1, 1⟩, ⟨1, 1⟩, [⟨.remove, text "a"⟩, ⟨.add, text "b"⟩]⟩
  have hps : parseAll (text "--- a/F\n+++ b/F\n@@ -1,1 +1,1 @@\n-a\n+b\n\n+c\n") 1 = .ok [⟨key, [hunk]⟩] := by
    decide +kernel
  have hsites : hunkSites (lines (text "--- a/F\n+++ b/F\n@@ -1,1 +1,1 @@\n-a\n+b\n\n+c\n"))
      = [(hunk, [[], text "+c"])] := by decide +kernel
  refine ⟨_, hps, ?_⟩
  rw [KeepsEveryLine, hsites]
  decide

end JavaMend.Diff
