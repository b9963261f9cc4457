import JavaMend.Diff.Anchor

/-!
# `Proofs.Diff.Searching` — the search finds the first place that is allowed

The options say which places a before image may be taken from, and one place is preferred to another if it takes less:
equal lines to lines that are equal up to white space, then the nearer place, then the later one of two that are equally
near. The search runs through the places in exactly this order (`locate_eq_find?`, `pairwise_looks`) and leaves none out
that could hold the image (`mem_looks_iff`). So it finds the first place that holds it, and finds none only if there is
none (`locate_first`).

## Contents
- **Standing.** `StandsAt`, the meaning of `matchesAt`.
- **Places.** `Allowed`, `Fits`, `Precedes`; `FirstPlace`, which is unique.
- **The order of the search.** `ring`, `window`, `looks`; `locate_eq_find?`, `mem_looks_iff`, `pairwise_looks`.
- **The search.** `firstPlace_of_locate`, `not_fits_of_locate`, `locate_of_firstPlace`, `locate_first`.
-/

namespace JavaMend.Diff

open JavaMend Text

/-! ## Standing -/

/-- **The image stands in the document** behind `pos` lines: its range lies inside, and each of its lines passes the test
    with the line in its place. -/
structure StandsAt (same : LineTest) (doc image : List Text) (pos : Nat) : Prop where
  inside : pos + image.length ≤ doc.length
  lines : ∀ i want, image[i]? = some want → ∃ line, doc[pos + i]? = some line ∧ same line want = true

theorem standsAtStart_iff {same : LineTest} {doc image : List Text} :
    standsAtStart same doc image = true ↔ StandsAt same doc image 0 := by
  induction image generalizing doc with
  | nil => exact ⟨fun _ => ⟨by simp, by simp⟩, fun _ => by simp [standsAtStart]⟩
  | cons w ws ih =>
    cases doc with
    | nil => exact ⟨fun h => by simp [standsAtStart] at h, fun h => absurd h.inside (by simp)⟩
    | cons d ds =>
      rw [standsAtStart, Bool.and_eq_true, ih]
      constructor
      · rintro ⟨hd, hin, hlines⟩
        refine ⟨by simp only [List.length_cons]; omega, fun i want hi => ?_⟩
        cases i with
        | zero => exact ⟨d, rfl, by simpa using (by simpa using hi : w = want) ▸ hd⟩
        | succ i => simpa [Nat.zero_add] using hlines i want (by simpa using hi)
      · rintro ⟨hin, hlines⟩
        refine ⟨by simpa using hlines 0 w rfl, by simpa using hin, fun i want hi => ?_⟩
        simpa [Nat.zero_add] using hlines (i + 1) want (by simpa using hi)

/-- **What a match means.** -/
theorem matchesAt_iff {same : LineTest} {doc image : List Text} {pos : Nat} :
    matchesAt same doc image pos = true ↔ StandsAt same doc image pos := by
  rw [matchesAt, Bool.and_eq_true, decide_eq_true_eq, standsAtStart_iff]
  constructor
  · rintro ⟨hpos, hin, hlines⟩
    rw [List.length_drop] at hin
    refine ⟨by omega, fun i want hi => ?_⟩
    simpa only [List.getElem?_drop, Nat.zero_add] using hlines i want hi
  · rintro ⟨hin, hlines⟩
    refine ⟨by omega, by rw [List.length_drop]; omega, fun i want hi => ?_⟩
    simpa only [List.getElem?_drop, Nat.zero_add] using hlines i want hi

/-! ## Places -/

/-- How lines are compared at a place. -/
def Anchor.test (a : Anchor) : LineTest := if a.relaxed then sameTrimmed else sameText

/-- **The options allow the place.** Its offset is its distance from the expected line and within the greatest one, and its
    level is within the highest one: equal lines at the expected line always, at other lines from level 1 on, and lines
    equal up to white space, the expected line included, at level 2. -/
structure Allowed (o : Options) (expected : Nat) (a : Anchor) : Prop where
  offset : a.offset = ((a.pos : Int) - expected).natAbs
  near : a.offset ≤ o.maxOffset
  level : a.level.rank ≤ o.maxLevel.rank

/-- The place holds the image. -/
def Fits (doc image : List Text) (a : Anchor) : Prop := StandsAt a.test doc image a.pos

/-- **One place is preferred to another**: equal lines to lines equal up to white space, then the nearer place, then the
    later one. -/
def Precedes (a b : Anchor) : Prop :=
  (a.relaxed = false ∧ b.relaxed = true) ∨
    (a.relaxed = b.relaxed ∧ (a.offset < b.offset ∨ a.offset = b.offset ∧ b.pos < a.pos))

theorem Precedes.asymm {a b : Anchor} (h : Precedes a b) : ¬ Precedes b a := by
  rintro (⟨hb, ha⟩ | ⟨hba, h'⟩)
  · rcases h with ⟨ha', -⟩ | ⟨hab, -⟩
    · simp [ha] at ha'
    · simp [ha, hb] at hab
  · rcases h with ⟨ha, hb⟩ | ⟨-, h⟩
    · simp [ha, hb] at hba
    · omega

/-- **The first place** that the options allow and that holds the image. -/
structure FirstPlace (o : Options) (doc image : List Text) (expected : Nat) (a : Anchor) : Prop where
  allowed : Allowed o expected a
  fits : Fits doc image a
  first : ∀ b, Allowed o expected b → Fits doc image b → b = a ∨ Precedes a b

theorem FirstPlace.unique {o : Options} {doc image : List Text} {expected : Nat} {a b : Anchor}
    (ha : FirstPlace o doc image expected a) (hb : FirstPlace o doc image expected b) : a = b := by
  rcases ha.first b hb.allowed hb.fits with h | hab
  · exact h.symm
  · rcases hb.first a ha.allowed ha.fits with h | hba
    · exact h
    · exact absurd hba hab.asymm

/-! ## The order of the search -/

/-- The places at distances from `first` to `last`, in the order of the search. -/
def ring (expected first last : Nat) (relaxed : Bool) : List Anchor :=
  (List.range' first (last + 1 - first)).flatMap fun offset =>
    (spots expected offset).map fun pos => ⟨pos, offset, relaxed⟩

/-- The places that are looked at from a level on in a document of `length` lines. -/
def window (o : Options) (level expected first length : Nat) (relaxed : Bool) : List Anchor :=
  if level ≤ o.maxLevel.rank then ring expected first (min o.maxOffset length) relaxed else []

/-- All places that are looked at in a document of `length` lines, in the order of the search. -/
def looks (o : Options) (expected length : Nat) : List Anchor :=
  ⟨expected, 0, false⟩ :: (window o 1 expected 1 length false ++ window o 2 expected 0 length true)

section
variable {o : Options} {doc image : List Text} {level expected first last length : Nat} {relaxed : Bool}

/-- A window is searched place by place. -/
theorem find?_window :
    (window o level expected first doc.length relaxed).find? (fun a => matchesAt a.test doc image a.pos) =
      (if level ≤ o.maxLevel.rank then
        search (if relaxed then sameTrimmed else sameText) doc image expected first o.maxOffset else none).map
        fun (pos, offset) => ⟨pos, offset, relaxed⟩ := by
  unfold window
  split
  · rw [search, ring, List.find?_flatMap, List.map_findSome?]
    congr 1
    funext offset
    rw [List.find?_map, Function.comp_apply, Option.map_map]
    rfl
  · rfl

/-- **The search takes the first match** among the places that it looks at. -/
theorem locate_eq_find? :
    locate o doc image expected =
      (looks o expected doc.length).find? fun a => matchesAt a.test doc image a.pos := by
  rw [looks, List.find?_cons, List.find?_append, find?_window, find?_window, locate]
  simp only [Anchor.test, Bool.false_eq_true, if_false, if_true]
  cases matchesAt sameText doc image expected with
  | true => rfl
  | false =>
    cases (if 1 ≤ o.maxLevel.rank then search sameText doc image expected 1 o.maxOffset else none) <;> rfl

theorem mem_spots_iff {offset pos : Nat} : pos ∈ spots expected offset ↔ offset = ((pos : Int) - expected).natAbs := by
  unfold spots
  split
  · rw [List.mem_singleton]
    omega
  · split
    · simp only [List.mem_cons, List.not_mem_nil, or_false]
      omega
    · rw [List.mem_singleton]
      omega

theorem mem_ring_iff {a : Anchor} :
    a ∈ ring expected first last relaxed ↔
      a.relaxed = relaxed ∧ a.offset = ((a.pos : Int) - expected).natAbs ∧ first ≤ a.offset ∧ a.offset ≤ last := by
  simp only [ring, List.mem_flatMap, List.mem_map, List.mem_range'_1, mem_spots_iff]
  constructor
  · rintro ⟨offset, ⟨hfirst, hlast⟩, pos, hpos, rfl⟩
    exact ⟨rfl, hpos, hfirst, by simp only; omega⟩
  · rintro ⟨rfl, hpos, hfirst, hlast⟩
    exact ⟨a.offset, ⟨hfirst, by omega⟩, a.pos, hpos, rfl⟩

theorem mem_window_iff {a : Anchor} :
    a ∈ window o level expected first length relaxed ↔
      level ≤ o.maxLevel.rank ∧ a.relaxed = relaxed ∧ a.offset = ((a.pos : Int) - expected).natAbs ∧ first ≤ a.offset
        ∧ a.offset ≤ o.maxOffset ∧ a.offset ≤ length := by
  unfold window
  split
  · rename_i hlevel
    simp only [mem_ring_iff, hlevel, true_and, Nat.le_min]
  · rename_i hlevel
    simp only [hlevel, false_and, List.not_mem_nil]

/-- **The search looks at every place that is allowed** and not farther away than the document is long. -/
theorem mem_looks_iff {a : Anchor} :
    a ∈ looks o expected length ↔ Allowed o expected a ∧ a.offset ≤ length := by
  obtain ⟨pos, offset, relaxed⟩ := a
  simp only [looks, List.mem_cons, List.mem_append, mem_window_iff, Anchor.mk.injEq]
  constructor
  · rintro (⟨rfl, rfl, rfl⟩ | ⟨hlevel, rfl, hoffset, hfirst, hnear, hlength⟩ | ⟨hlevel, rfl, hoffset, -, hnear, hlength⟩)
    · exact ⟨⟨by simp, Nat.zero_le _, Nat.zero_le _⟩, Nat.zero_le _⟩
    · refine ⟨⟨hoffset, hnear, ?_⟩, hlength⟩
      simpa [Anchor.level, Level.rank, Nat.ne_of_gt hfirst] using hlevel
    · exact ⟨⟨hoffset, hnear, by simpa [Anchor.level, Level.rank] using hlevel⟩, hlength⟩
  · rintro ⟨⟨hoffset, hnear, hlevel⟩, hlength⟩
    simp only at hoffset hnear hlength
    cases relaxed with
    | true => exact .inr (.inr ⟨hlevel, rfl, hoffset, Nat.zero_le _, hnear, hlength⟩)
    | false =>
      by_cases hzero : offset = 0
      · exact .inl ⟨by omega, hzero, rfl⟩
      · refine .inr (.inl ⟨?_, rfl, hoffset, Nat.pos_of_ne_zero hzero, hnear, hlength⟩)
        simpa [Anchor.level, Level.rank, hzero] using hlevel

theorem pairwise_ring : (ring expected first last relaxed).Pairwise Precedes := by
  rw [ring, List.pairwise_flatMap]
  constructor
  · -- At one distance the later place comes first.
    intro offset _
    rw [List.pairwise_map, spots]
    split
    · exact List.pairwise_singleton _ _
    · split
      · rw [List.pairwise_pair]
        exact .inr ⟨rfl, .inr ⟨rfl, by simp only; omega⟩⟩
      · exact List.pairwise_singleton _ _
  · refine (List.pairwise_lt_range' 1).imp fun hlt a ha b hb => ?_
    obtain ⟨p, -, rfl⟩ := List.mem_map.1 ha
    obtain ⟨q, -, rfl⟩ := List.mem_map.1 hb
    exact .inr ⟨rfl, .inl hlt⟩

theorem pairwise_window : (window o level expected first length relaxed).Pairwise Precedes := by
  unfold window
  split
  · exact pairwise_ring
  · exact .nil

/-- **The search prefers what comes first.** -/
theorem pairwise_looks : (looks o expected length).Pairwise Precedes := by
  rw [looks, List.pairwise_cons, List.pairwise_append]
  refine ⟨fun b hb => ?_, pairwise_window, pairwise_window, fun a ha b hb => ?_⟩
  · rcases List.mem_append.1 hb with hb | hb
    · obtain ⟨-, hrelaxed, -, hfirst, -⟩ := mem_window_iff.1 hb
      exact .inr ⟨hrelaxed.symm, .inl hfirst⟩
    · exact .inl ⟨rfl, (mem_window_iff.1 hb).2.1⟩
  · exact .inl ⟨(mem_window_iff.1 ha).2.1, (mem_window_iff.1 hb).2.1⟩

/-! ## The search -/

theorem matchesAt_test_iff {a : Anchor} : matchesAt a.test doc image a.pos = true ↔ Fits doc image a := matchesAt_iff

/-- A place that holds the image is no farther away than the document is long. -/
theorem Allowed.offset_le {a : Anchor} (h : Allowed o expected a) (hexpected : expected ≤ doc.length)
    (hfits : Fits doc image a) : a.offset ≤ doc.length := by
  have hoffset := h.offset
  have hinside := hfits.inside
  omega

/-- **What is found is the first place.** -/
theorem firstPlace_of_locate (hexpected : expected ≤ doc.length) {a : Anchor}
    (h : locate o doc image expected = some a) : FirstPlace o doc image expected a := by
  rw [locate_eq_find?, List.find?_eq_some_iff_append] at h
  obtain ⟨hfits, before, after, hlooks, hbefore⟩ := h
  have hmem : a ∈ looks o expected doc.length := by simp [hlooks]
  refine ⟨(mem_looks_iff.1 hmem).1, matchesAt_test_iff.1 hfits, fun b hallowed hb => ?_⟩
  -- A place that holds the image is not among those before, which were looked at in vain.
  have hb' : b ∈ looks o expected doc.length := mem_looks_iff.2 ⟨hallowed, hallowed.offset_le hexpected hb⟩
  have hpairwise : (looks o expected doc.length).Pairwise Precedes := pairwise_looks
  rw [hlooks] at hb' hpairwise
  rcases List.mem_append.1 hb' with hb' | hb'
  · simpa [matchesAt_test_iff.2 hb] using hbefore b hb'
  · rcases List.mem_cons.1 hb' with rfl | hb'
    · exact .inl rfl
    · exact .inr (List.rel_of_pairwise_cons (List.pairwise_append.1 hpairwise).2.1 hb')

/-- **Nothing is found only where no place is left.** -/
theorem not_fits_of_locate (hexpected : expected ≤ doc.length) (h : locate o doc image expected = none) {a : Anchor}
    (hallowed : Allowed o expected a) : ¬ Fits doc image a := by
  intro hfits
  rw [locate_eq_find?, List.find?_eq_none] at h
  exact h a (mem_looks_iff.2 ⟨hallowed, hallowed.offset_le hexpected hfits⟩) (matchesAt_test_iff.2 hfits)

/-- The first place is found. -/
theorem locate_of_firstPlace (hexpected : expected ≤ doc.length) {a : Anchor} (h : FirstPlace o doc image expected a) :
    locate o doc image expected = some a := by
  cases hlocate : locate o doc image expected with
  | none => exact absurd h.fits (not_fits_of_locate hexpected hlocate h.allowed)
  | some b => rw [(firstPlace_of_locate hexpected hlocate).unique h]

end

/-- **The search is complete and takes the first place.** It finds nothing exactly if no place that the options allow
    holds the image, and finds a place exactly if this is the first one; its range lies inside the document. -/
theorem locate_first {o : Options} {doc image : List Text} {expected : Nat} (hexpected : expected ≤ doc.length) :
    (locate o doc image expected = none ↔ ∀ a, Allowed o expected a → ¬ Fits doc image a)
      ∧ ∀ a, (locate o doc image expected = some a ↔ FirstPlace o doc image expected a)
        ∧ (locate o doc image expected = some a → a.pos + image.length ≤ doc.length) := by
  refine ⟨⟨fun h a => not_fits_of_locate hexpected h, fun h => ?_⟩, fun a => ⟨⟨firstPlace_of_locate hexpected, fun h => ?_⟩,
    fun h => (firstPlace_of_locate hexpected h).fits.inside⟩⟩
  · rw [Option.eq_none_iff_forall_ne_some]
    intro a ha
    have hfirst := firstPlace_of_locate hexpected ha
    exact h a hfirst.allowed hfirst.fits
  · cases hlocate : locate o doc image expected with
    | none => exact absurd h.fits (not_fits_of_locate hexpected hlocate h.allowed)
    | some b => rw [(firstPlace_of_locate hexpected hlocate).unique h]

/-- The expected line is equal up to white space, but the equal line two lines farther on is the first place. -/
theorem locate_first_after : 0 ≤ [text " x", text "y", text "x"].length
    ∧ FirstPlace ⟨.trimmed, 5, false⟩ [text " x", text "y", text "x"] [text "x"] 0 ⟨2, 2, false⟩ :=
  ⟨by decide, ((locate_first (by decide)).2 _).1.1 (by decide)⟩

end JavaMend.Diff
