import JavaMend.Proofs.Java.CodeEdits
import JavaMend.Proofs.Java.FixedLines
import JavaMend.Proofs.Java.MarkedEdits
import Mathlib.Data.List.Chain

/-!
# `Proofs.Java.SingleCasts` — casts that are written once

Collapsed casts stand apart: no cast has the type of the one before it, and no white space is between the two. This can be
said of each place in the code of a text on its own (`CastApart`). It holds wherever casts were collapsed
(`inCode_castApart_collapseCasts`), and where it holds there is nothing to collapse (`collapseCasts_of_inCode`). An edit
that writes nothing casts are made of keeps it (`castApart_of_passes`).

## Contents
- **Casts.** `castText`, `nextCast`, `CastApart`; `cast?_eq_some_iff`, `nextCast_eq_some_iff`.
- **Rows of casts.** `casts_induction`, `findCasts_eq_some_iff`; `editsCode_findCasts`, `isChain_dedupAdjacent`.
- **Passing.** `Passes`; `startsWith_of_passes`, `castApart_of_passes`, `passes_codeEdited`.
- **Collapsed casts.** `inCode_castApart_collapseCasts`, `collapseCasts_of_inCode`.
-/

namespace JavaMend.Java

open JavaMend Text

/-! ## Casts -/

/-- The text of a cast. -/
def castText (type : Text) : Text := '(' :: type ++ [')']

/-- A character of a cast. -/
def inCast (c : Char) : Bool := primitives.any fun type => c ∈ castText type

/-- The type of the cast that comes next, white space left aside. -/
def nextCast (t : Text) : Option Text := (cast? (trimStart t)).map Prod.fst

/-- **A cast that opens a text stands apart** from the cast behind it. -/
def CastApart (t : Text) : Prop :=
  ∀ type rest, cast? t = some (type, rest) → ∀ next ∈ nextCast rest, next ≠ type ∧ rest.head?.any isBlank = false

theorem inCast_of_mem {type : Text} (h : type ∈ primitives) : ∀ c ∈ castText type, inCast c = true := fun c hc =>
  List.any_eq_true.2 ⟨type, h, by simpa using hc⟩

/-- A property of the few characters that casts are made of. -/
theorem of_inCast {p : Char → Bool} (hp : primitives.all (fun type => (castText type).all p) = true) {c : Char}
    (hc : inCast c = true) : p c = true := by
  obtain ⟨type, htype, hmem⟩ := List.any_eq_true.1 hc
  exact List.all_eq_true.1 (List.all_eq_true.1 hp type htype) c (by simpa using hmem)

theorem castText_append_inj {a b r s : Text} (ha : a ∈ primitives) (hb : b ∈ primitives)
    (h : castText a ++ r = castText b ++ s) : a = b ∧ r = s := by
  have hclose : ∀ type ∈ primitives, ∀ c ∈ type, (c != ')') = true := fun type htype =>
    List.all_eq_true.1 (List.all_eq_true.1 (by decide : (primitives.all fun type => type.all (· != ')')) = true) type htype)
  have hspell (type r : Text) : castText type ++ r = '(' :: (type ++ ')' :: r) := by simp [castText]
  rw [hspell, hspell, List.cons.injEq] at h
  have htake := congrArg (List.takeWhile (· != ')')) h.2
  rw [List.takeWhile_append_of_pos (hclose a ha), List.takeWhile_append_of_pos (hclose b hb)] at htake
  have hab : a = b := by simpa using htake
  subst hab
  exact ⟨rfl, by simpa using h.2⟩

theorem cast?_eq_some_iff {t type rest : Text} :
    cast? t = some (type, rest) ↔ type ∈ primitives ∧ t = castText type ++ rest := by
  refine ⟨cast?_spec, ?_⟩
  rintro ⟨htype, rfl⟩
  have hsome : (cast? (castText type ++ rest)).isSome = true := by
    rw [cast?, List.findSome?_isSome_iff]
    refine ⟨type, htype, ?_⟩
    rw [Option.isSome_map, dropPrefix?_eq_some.2 (show castText type ++ rest = '(' :: type ++ [')'] ++ rest from rfl)]
    rfl
  obtain ⟨⟨type', rest'⟩, hfound⟩ := Option.isSome_iff_exists.1 hsome
  obtain ⟨htype', hspell⟩ := cast?_spec hfound
  obtain ⟨rfl, rfl⟩ := castText_append_inj htype htype' hspell
  exact hfound

/-- A cast opens with its bracket. -/
theorem cast?_cons_of_ne {c : Char} (hc : c ≠ '(') (t : Text) : cast? (c :: t) = none := by
  refine Option.eq_none_iff_forall_ne_some.2 fun found hfound => ?_
  obtain ⟨-, hspell⟩ := cast?_spec hfound
  exact hc (List.cons.inj hspell).1

theorem castApart_cons {c : Char} (hc : c ≠ '(') (t : Text) : CastApart (c :: t) := by
  intro type rest h
  rw [cast?_cons_of_ne hc] at h
  cases h

theorem trimStart_append_blank {b : Text} (hb : ∀ c ∈ b, isBlank c = true) (t : Text) :
    trimStart (b ++ t) = trimStart t := by
  rw [trimStart, List.dropWhile_append_of_pos hb, trimStart]

theorem nextCast_eq_some_iff {t next : Text} :
    nextCast t = some next ↔ next ∈ primitives ∧ ∃ b r, t = b ++ (castText next ++ r) ∧ ∀ c ∈ b, isBlank c = true := by
  rw [nextCast, Option.map_eq_some_iff]
  constructor
  · rintro ⟨⟨type, rest⟩, hcast, rfl⟩
    obtain ⟨htype, hspell⟩ := cast?_eq_some_iff.1 hcast
    refine ⟨htype, t.takeWhile isBlank, rest, ?_, List.all_eq_true.1 List.all_takeWhile⟩
    rw [← hspell, trimStart, List.takeWhile_append_dropWhile]
  · rintro ⟨hnext, b, r, rfl, hb⟩
    refine ⟨(next, r), cast?_eq_some_iff.2 ⟨hnext, ?_⟩, rfl⟩
    rw [trimStart_append_blank hb]
    rfl

theorem nextCast_cons (c : Char) (t : Text) :
    nextCast (c :: t) = if isBlank c then nextCast t else (cast? (c :: t)).map Prod.fst := by
  rw [nextCast, trimStart, List.dropWhile_cons]
  split <;> rfl

theorem nextCast_append_blank {b : Text} (hb : ∀ c ∈ b, isBlank c = true) (t : Text) : nextCast (b ++ t) = nextCast t := by
  rw [nextCast, trimStart_append_blank hb, nextCast]

/-- A character that no cast holds ends the view. -/
theorem cast?_append_cons {q : Char} (hq : inCast q = false) (x y : Text) :
    cast? (x ++ q :: y) = (cast? x).map fun found => (found.1, found.2 ++ q :: y) := by
  have hmem : ∀ type ∈ primitives, q ∉ castText type := fun type htype hc => by
    rw [inCast_of_mem htype q hc] at hq
    cases hq
  refine Option.ext fun found => ?_
  obtain ⟨type, rest⟩ := found
  rw [cast?_eq_some_iff, Option.map_eq_some_iff]
  constructor
  · rintro ⟨htype, hspell⟩
    have hdrop := dropPrefix?_eq_some.2 hspell
    rw [dropPrefix?_append_cons (hmem type htype)] at hdrop
    obtain ⟨r, hr, rfl⟩ := Option.map_eq_some_iff.1 hdrop
    exact ⟨(type, r), cast?_eq_some_iff.2 ⟨htype, dropPrefix?_eq_some.1 hr⟩, rfl⟩
  · rintro ⟨⟨type', r⟩, hcast, heq⟩
    cases heq
    obtain ⟨htype, rfl⟩ := cast?_eq_some_iff.1 hcast
    exact ⟨htype, List.append_assoc _ _ _⟩

theorem nextCast_append_cons {q : Char} (hq : inCast q = false) (hblank : isBlank q = false) (x y : Text) :
    nextCast (x ++ q :: y) = nextCast x := by
  rw [nextCast, trimStart, dropWhile_append_cons hblank, cast?_append_cons hq, Option.map_map, nextCast, trimStart]
  rfl

/-! ## Rows of casts -/

theorem moreCasts_of_none {t : Text} (h : nextCast t = none) : moreCasts t = ([], []) := by
  rw [nextCast, Option.map_eq_none_iff, trimStart] at h
  rw [moreCasts]
  split
  · rfl
  · rename_i hsome
    rw [h] at hsome
    cases hsome

theorem moreCasts_of_some {t type rest : Text} (h : cast? (trimStart t) = some (type, rest)) :
    moreCasts t = (t.takeWhile isBlank ++ (castText type ++ (moreCasts rest).1), type :: (moreCasts rest).2) := by
  rw [moreCasts]
  split
  · rename_i hnone
    rw [trimStart] at h
    rw [h] at hnone
    cases hnone
  · rename_i hsome
    rw [trimStart] at h
    rw [h] at hsome
    cases hsome
    simp [castText]

/-- Induction along a row of casts. -/
theorem casts_induction {motive : Text → Prop} (none : ∀ t, nextCast t = none → motive t)
    (cast : ∀ b type rest, (∀ c ∈ b, isBlank c = true) → type ∈ primitives → motive rest →
      motive (b ++ (castText type ++ rest))) (t : Text) : motive t := by
  fun_induction moreCasts t with
  | case1 t h => exact none t (by rw [nextCast, trimStart, h]; rfl)
  | case2 t gap type rest h more ih =>
    obtain ⟨htype, hspell⟩ := cast?_eq_some_iff.1 h
    have ht : t = gap ++ (castText type ++ rest) := by
      rw [← hspell, List.takeWhile_append_dropWhile]
    rw [ht]
    exact cast gap type rest (List.all_eq_true.1 List.all_takeWhile) htype ih

theorem takeWhile_castText (type rest : Text) : (castText type ++ rest).takeWhile isBlank = [] := rfl

theorem trimStart_castText (type rest : Text) : trimStart (castText type ++ rest) = castText type ++ rest := rfl

theorem moreCasts_append {b type rest : Text} (hb : ∀ c ∈ b, isBlank c = true) (htype : type ∈ primitives) :
    moreCasts (b ++ (castText type ++ rest)) =
      (b ++ (castText type ++ (moreCasts rest).1), type :: (moreCasts rest).2) := by
  have hcast : cast? (trimStart (b ++ (castText type ++ rest))) = some (type, rest) := by
    rw [trimStart_append_blank hb, trimStart_castText]
    exact cast?_eq_some_iff.2 ⟨htype, rfl⟩
  rw [moreCasts_of_some hcast, List.takeWhile_append_of_pos hb, takeWhile_castText, List.append_nil]

/-- A row of casts goes on as far as it can, and the first of its casts is the one that comes next. -/
theorem moreCasts_behind (t : Text) :
    (∃ rest, t = (moreCasts t).1 ++ rest ∧ nextCast rest = none) ∧ (moreCasts t).2.head? = nextCast t := by
  induction t using casts_induction with
  | none t h => exact ⟨⟨t, by rw [moreCasts_of_none h]; rfl, h⟩, by rw [moreCasts_of_none h, h]; rfl⟩
  | cast b type rest hb htype ih =>
    obtain ⟨⟨r, hr, hnone⟩, -⟩ := ih
    rw [moreCasts_append hb htype]
    refine ⟨⟨r, ?_, hnone⟩, ?_⟩
    · conv => lhs; rw [hr]
      simp
    · exact (nextCast_eq_some_iff.2 ⟨htype, b, rest, rfl, hb⟩).symm

theorem moreCasts_append_cons {q : Char} (hq : inCast q = false) (hblank : isBlank q = false) (x y : Text) :
    moreCasts (x ++ q :: y) = moreCasts x := by
  induction x using casts_induction with
  | none x h =>
    have hnone : nextCast (x ++ q :: y) = none := by rw [nextCast_append_cons hq hblank, h]
    rw [moreCasts_of_none hnone, moreCasts_of_none h]
  | cast b type rest hb htype ih =>
    rw [List.append_assoc, List.append_assoc, moreCasts_append hb htype, moreCasts_append hb htype, ih]

/-- Two casts or more are found where one comes behind another. -/
theorem findCasts_eq_some_iff {before : Option Char} {t m : Text} {types : List Text} :
    findCasts before t = some (m, types) ↔ ∃ type rest, cast? t = some (type, rest) ∧ nextCast rest ≠ none
      ∧ m = castText type ++ (moreCasts rest).1 ∧ types = type :: (moreCasts rest).2 := by
  simp only [findCasts, Option.bind_eq_bind, Option.bind_eq_some_iff, Prod.exists]
  refine exists_congr fun type => exists_congr fun rest => and_congr_right fun _ => ?_
  have hhead := (moreCasts_behind rest).2
  split
  · rename_i hnone
    rw [hnone] at hhead
    simp [← hhead]
  · rename_i more ts hne hmore
    have hnext : nextCast rest ≠ none := by
      rw [← hhead, hmore]
      intro hnil
      exact hne (List.head?_eq_none_iff.1 hnil)
    simp [hmore, hnext, castText, eq_comm]

theorem findCasts_eq_none_iff {before : Option Char} {t : Text} :
    findCasts before t = none ↔ ∀ type rest, cast? t = some (type, rest) → nextCast rest = none := by
  rw [Option.eq_none_iff_forall_ne_some]
  constructor
  · intro h type rest hcast
    by_contra hnext
    exact h _ (findCasts_eq_some_iff.2 ⟨type, rest, hcast, hnext, rfl, rfl⟩)
  · intro h found hfound
    obtain ⟨type, rest, hcast, hnext, -⟩ := findCasts_eq_some_iff.1 hfound
    exact hnext (h type rest hcast)

theorem findCasts_spell {before : Option Char} {t m : Text} {types : List Text}
    (h : findCasts before t = some (m, types)) : ∃ type r rest, types = type :: (moreCasts r).2 ∧ type ∈ primitives
      ∧ m = castText type ++ (moreCasts r).1 ∧ r = (moreCasts r).1 ++ rest ∧ t = m ++ rest ∧ nextCast rest = none := by
  obtain ⟨type, r, hcast, -, rfl, rfl⟩ := findCasts_eq_some_iff.1 h
  obtain ⟨htype, rfl⟩ := cast?_eq_some_iff.1 hcast
  obtain ⟨⟨rest, hr, hnone⟩, -⟩ := moreCasts_behind r
  refine ⟨type, r, rest, rfl, htype, rfl, hr, ?_, hnone⟩
  rw [List.append_assoc, ← hr]

/-- The casts of a row, different ones without the space between them. -/
def writeCasts (types : List Text) : Text := (dedupAdjacent types).flatMap castText

theorem collapseCasts_eq (t : Text) : collapseCasts t = mapCode (substitute findCasts fun _ => writeCasts) t := rfl

theorem isChain_dedupAdjacent (types : List Text) :
    (dedupAdjacent types).IsChain (· ≠ ·) ∧ (dedupAdjacent types).head? = types.head? := by
  fun_induction dedupAdjacent types with
  | case1 => exact ⟨.nil, rfl⟩
  | case2 t => exact ⟨.singleton t, rfl⟩
  | case3 t r ih => exact ⟨ih.1, ih.2.trans rfl⟩
  | case4 t u r hne ih =>
    refine ⟨?_, rfl⟩
    rw [List.isChain_cons]
    refine ⟨fun next hnext => ?_, ih.1⟩
    rw [ih.2] at hnext
    obtain rfl : u = next := by simpa using hnext
    exact hne

theorem mem_moreCasts {t : Text} : ∀ c ∈ (moreCasts t).1, isBlank c = true ∨ inCast c = true := by
  induction t using casts_induction with
  | none t h => simp [moreCasts_of_none h]
  | cast b type rest hb htype ih =>
    intro c hc
    rw [moreCasts_append hb htype] at hc
    simp only [List.mem_append] at hc
    rcases hc with hc | hc | hc
    · exact .inl (hb c hc)
    · exact .inr (inCast_of_mem htype c hc)
    · exact ih c hc

theorem mem_writeCasts {types : List Text} (hne : types ≠ []) (h : ∀ type ∈ types, type ∈ primitives) :
    (∃ w, writeCasts types = '(' :: w) ∧ ∀ c ∈ writeCasts types, inCast c = true := by
  obtain ⟨hdedup, hsub⟩ := dedupAdjacent_spec hne
  constructor
  · obtain ⟨type, rest, hcons⟩ := List.exists_cons_of_ne_nil hdedup
    rw [writeCasts, hcons]
    exact ⟨_, rfl⟩
  · intro c hc
    obtain ⟨type, htype, hc⟩ := List.mem_flatMap.1 hc
    exact inCast_of_mem (h type (hsub type htype)) c hc

theorem staysCode_of_isBlank {c : Char} (h : isBlank c = true) : staysCode c = true := by
  have hall : (['/', '*', '"', '\''].all fun d => !isBlank d) = true := by decide
  refine decide_eq_true fun hmem => ?_
  have hblank := List.all_eq_true.1 hall c hmem
  rw [h] at hblank
  cases hblank

theorem editsCode_findCasts : EditsCode findCasts fun _ => writeCasts where
  faithful := faithful_findCasts
  behind before t := rfl
  ahead {d} x y hd := by
    have hopen : inCast d = false ∧ isBlank d = false := by
      simp only [canOpen, Bool.or_eq_true, beq_iff_eq, isQuote_iff] at hd
      rcases hd with rfl | rfl | rfl <;> decide
    unfold findCasts
    rw [cast?_append_cons hopen.1]
    cases cast? x with
    | none => rfl
    | some found => simp [moreCasts_append_cons hopen.1 hopen.2]
  hit h := by
    obtain ⟨type, r, rest, -, htype, rfl, -⟩ := findCasts_spell h
    refine ⟨by simp [castText], fun c hc => ?_⟩
    rcases List.mem_append.1 hc with hc | hc
    · exact of_inCast (by decide) (inCast_of_mem htype c hc)
    · exact (mem_moreCasts c hc).elim staysCode_of_isBlank (of_inCast (by decide))
  written h := by
    obtain ⟨-, -, hne, htypes⟩ := findCasts_spec h
    obtain ⟨⟨w, hw⟩, hcasts⟩ := mem_writeCasts hne htypes
    refine ⟨by simp [hw], fun c hc => ?_⟩
    have hboth : (staysCode c && !isBlank c) = true :=
      of_inCast (p := fun c => staysCode c && !isBlank c) (by decide) (hcasts c hc)
    simpa using hboth

/-! ## Passing -/

/-- Characters that an edit lets through: where one opens the new text, it opened the old one. -/
def Passes (p : Char → Bool) (R : Text → Text → Prop) : Prop :=
  ∀ c t s, p c = true → R t (c :: s) → ∃ u, t = c :: u ∧ R u s

section
variable {p : Char → Bool} {R : Text → Text → Prop} {t s : Text}

theorem Passes.run (h : Passes p R) {w : Text} (hw : ∀ c ∈ w, p c = true) (hR : R t (w ++ s)) :
    ∃ u, t = w ++ u ∧ R u s := by
  induction w generalizing t with
  | nil => exact ⟨t, rfl, hR⟩
  | cons c w ih =>
    obtain ⟨hc, hw⟩ := List.forall_mem_cons.1 hw
    obtain ⟨u, rfl, hu⟩ := h c t (w ++ s) hc hR
    obtain ⟨v, rfl, hv⟩ := ih hw hu
    exact ⟨v, rfl, hv⟩

theorem startsWith_of_passes (h : Passes p R) {w : Text} (hw : ∀ c ∈ w, p c = true) (hR : R t s)
    (hs : startsWith w s = true) : startsWith w t = true := by
  rw [startsWith, Option.isSome_iff_exists] at hs ⊢
  obtain ⟨r, hr⟩ := hs
  rw [dropPrefix?_eq_some] at hr
  subst hr
  obtain ⟨u, rfl, -⟩ := h.run hw hR
  exact ⟨u, dropPrefix?_eq_some.2 rfl⟩

variable (h : Passes p R) (hcast : ∀ c, inCast c = true → p c = true)

include h hcast

theorem cast?_of_passes (hR : R t s) {type rest : Text} (hs : cast? s = some (type, rest)) :
    ∃ u, cast? t = some (type, u) ∧ R u rest := by
  obtain ⟨htype, rfl⟩ := cast?_eq_some_iff.1 hs
  obtain ⟨u, rfl, hu⟩ := h.run (fun c hc => hcast c (inCast_of_mem htype c hc)) hR
  exact ⟨u, cast?_eq_some_iff.2 ⟨htype, rfl⟩, hu⟩

theorem nextCast_of_passes (hblank : ∀ c, isBlank c = true → p c = true) (hR : R t s) {next : Text}
    (hs : nextCast s = some next) : nextCast t = some next := by
  obtain ⟨hnext, b, r, rfl, hb⟩ := nextCast_eq_some_iff.1 hs
  obtain ⟨u, rfl, hu⟩ := h.run (fun c hc => hblank c (hb c hc)) hR
  obtain ⟨v, rfl, -⟩ := h.run (fun c hc => hcast c (inCast_of_mem hnext c hc)) hu
  exact nextCast_eq_some_iff.2 ⟨hnext, b, v, rfl, hb⟩

/-- **Casts stay apart** under an edit that lets through what they are made of, if a cast that comes next came next before
    and has white space in front of it only where there was some. -/
theorem castApart_of_passes (hnext : ∀ t s next, R t s → nextCast s = some next →
      nextCast t = some next ∧ (s.head?.any isBlank = true → t.head?.any isBlank = true))
    (hR : R t s) (ht : CastApart t) : CastApart s := by
  intro type rest hs next hcomes
  obtain ⟨u, hu, hrest⟩ := cast?_of_passes h hcast hR hs
  obtain ⟨hcame, hgap⟩ := hnext u rest next hrest hcomes
  obtain ⟨hne, hapart⟩ := ht type u hu next hcame
  refine ⟨hne, Bool.eq_false_iff.2 fun hblank => ?_⟩
  rw [hgap hblank] at hapart
  cases hapart

end

/-- An edit of code lets through what it does not write first. -/
theorem passes_codeEdited {α : Type} {find : Finder α} {write : Text → α → Text} (he : EditsCode find write) {d : Char}
    (hd : ∀ t m a, find none t = some (m, a) → (write m a).head? = some d) :
    Passes (fun c => staysCode c && c != d) (CodeEdited find write .code) := by
  intro c t s hc hedit
  simp only [Bool.and_eq_true, bne_iff_ne] at hc
  obtain ⟨u, rfl, hu⟩ := hedit.of_keep he fun t m a hfind hhead =>
    hc.2 (Option.some.inj (hhead.symm.trans (hd t m a hfind)))
  rw [step_staysCode hc.1] at hu
  exact ⟨u, rfl, hu⟩

/-! ## Collapsed casts -/

theorem passes_collapsed : Passes (fun c => staysCode c && c != '(') (CodeEdited findCasts (fun _ => writeCasts) .code) := by
  refine passes_codeEdited editsCode_findCasts fun t m types hfind => ?_
  obtain ⟨-, -, hne, htypes⟩ := findCasts_spec hfind
  obtain ⟨⟨w, hw⟩, -⟩ := mem_writeCasts hne htypes
  rw [hw, List.head?_cons]

/-- Behind its bracket a cast goes on as code, with no other bracket. -/
theorem behind_bracket {type : Text} (htype : type ∈ primitives) :
    ∀ c ∈ type ++ [')'], (staysCode c && c != '(') = true := by
  have hall : (primitives.all fun type => (type ++ [')']).all fun c => staysCode c && c != '(') = true := by decide
  exact List.all_eq_true.1 (List.all_eq_true.1 hall type htype)

section
variable {t s : Text}

/-- A cast behind its bracket was there before casts were collapsed. -/
theorem cast?_of_collapsed (h : CodeEdited findCasts (fun _ => writeCasts) .code t s) {type rest : Text}
    (hs : cast? ('(' :: s) = some (type, rest)) :
    ∃ u, cast? ('(' :: t) = some (type, u) ∧ CodeEdited findCasts (fun _ => writeCasts) .code u rest := by
  obtain ⟨htype, hspell⟩ := cast?_eq_some_iff.1 hs
  obtain rfl : s = type ++ [')'] ++ rest := (List.cons.inj hspell).2
  obtain ⟨u, rfl, hu⟩ := passes_collapsed.run (behind_bracket htype) h
  exact ⟨u, cast?_eq_some_iff.2 ⟨htype, rfl⟩, hu⟩

/-- Where casts were collapsed, none comes next that did not before. -/
theorem nextCast_of_collapsed (h : CodeEdited findCasts (fun _ => writeCasts) .code t s) (ht : nextCast t = none) :
    nextCast s = none := by
  refine Option.eq_none_iff_forall_ne_some.2 fun next hnext => ?_
  obtain ⟨hprimitive, b, r, rfl, hb⟩ := nextCast_eq_some_iff.1 hnext
  have hblank : ∀ c ∈ b, (staysCode c && c != '(') = true := fun c hc => by
    have hne : c ≠ '(' := by
      rintro rfl
      exact absurd (hb _ hc) (by decide)
    simp [staysCode_of_isBlank (hb c hc), hne]
  obtain ⟨u, rfl, hu⟩ := passes_collapsed.run hblank h
  -- A cast that comes next was kept, or written for a row of casts.
  have hcast : cast? u ≠ none := by
    have hs : cast? (castText next ++ r) = some (next, r) := cast?_eq_some_iff.2 ⟨hprimitive, rfl⟩
    generalize hx : castText next ++ r = x at hu hs
    cases hu with
    | nil => cases hx
    | @keep _ c u x hnone hu =>
      obtain rfl : '(' = c := (List.cons.inj hx).1
      rw [step_staysCode (by decide)] at hu
      obtain ⟨v, hv, -⟩ := cast?_of_collapsed hu hs
      rw [hv]
      simp
    | hit hfind =>
      obtain ⟨type, rest, hcast, -⟩ := findCasts_eq_some_iff.1 hfind
      rw [hcast]
      simp
  refine hcast ?_
  obtain ⟨found, hfound⟩ := Option.ne_none_iff_exists'.1 hcast
  obtain ⟨htype, rfl⟩ := cast?_eq_some_iff.1 (show cast? u = some (found.1, found.2) from hfound)
  rw [nextCast_eq_some_iff.2 ⟨htype, b, found.2, rfl, hb⟩] at ht
  cases ht

/-- Casts of which no two neighbours are equal stand apart, if none comes behind them. -/
theorem inCode_castApart_casts {types : List Text} (htypes : ∀ type ∈ types, type ∈ primitives)
    (hchain : types.IsChain (· ≠ ·)) (hs : nextCast s = none) (h : InCode CastApart .code s) :
    InCode CastApart .code (types.flatMap castText ++ s) := by
  induction types with
  | nil => exact h
  | cons type types ih =>
    obtain ⟨htype, htypes⟩ := List.forall_mem_cons.1 htypes
    obtain ⟨hne, hchain⟩ := List.isChain_cons.1 hchain
    have hrest := ih htypes hchain
    have hspell : (type :: types).flatMap castText ++ s = '(' :: (type ++ [')'] ++ (types.flatMap castText ++ s)) := by
      simp [castText]
    have hplain : ∀ c ∈ type ++ [')'], staysCode c = true ∧ ∀ t, CastApart (c :: t) := by
      intro c hc
      have hc := behind_bracket htype c hc
      rw [Bool.and_eq_true, bne_iff_ne] at hc
      exact ⟨hc.1, castApart_cons hc.2⟩
    rw [hspell]
    refine ⟨fun _ => ?_, ?_⟩
    · intro type' rest hcast next hnext
      obtain ⟨htype', hspell'⟩ := cast?_eq_some_iff.1 hcast
      obtain ⟨rfl, rfl⟩ := castText_append_inj htype htype' hspell'
      cases types with
      | nil => rw [List.flatMap_nil, List.nil_append, hs] at hnext; cases hnext
      | cons other types =>
        obtain ⟨hother, -⟩ := List.forall_mem_cons.1 htypes
        have hcons : (other :: types).flatMap castText ++ s = [] ++ (castText other ++ (types.flatMap castText ++ s)) := by
          simp
        rw [nextCast_eq_some_iff.2 ⟨hother, [], _, hcons, by simp⟩] at hnext
        obtain rfl : other = next := Option.some.inj hnext
        exact ⟨(hne other rfl).symm, rfl⟩
    · rw [step_staysCode (by decide)]
      exact inCode_append hplain hrest

theorem inCode_castApart_of_collapsed {m : Mode} (h : CodeEdited findCasts (fun _ => writeCasts) m t s) :
    InCode CastApart m s := by
  induction h with
  | nil => trivial
  | @keep m c t s hnone h ih =>
    have hstep := h.step_eq editsCode_findCasts m c
    refine ⟨?_, hstep ▸ ih⟩
    rintro rfl
    by_cases hc : c = '('
    · subst hc
      rw [step_staysCode (by decide)] at h
      intro type rest hcast next hnext
      obtain ⟨u, hu, hrest⟩ := cast?_of_collapsed h hcast
      rw [nextCast_of_collapsed hrest (findCasts_eq_none_iff.1 (hnone rfl) type u hu)] at hnext
      cases hnext
    · exact castApart_cons hc s
  | @hit m types t s hfind h ih =>
    obtain ⟨-, -, hne, htypes⟩ := findCasts_spec hfind
    obtain ⟨-, -, rest, -, -, -, -, ht, hnone⟩ := findCasts_spell hfind
    rw [List.append_cancel_left_eq] at ht
    subst ht
    have hsub := (dedupAdjacent_spec hne).2
    exact inCode_castApart_casts (fun type htype => htypes type (hsub type htype)) (isChain_dedupAdjacent types).1
      (nextCast_of_collapsed h hnone) ih

end

/-- **Collapsed casts stand apart.** -/
theorem inCode_castApart_collapseCasts (t : Text) : InCode CastApart .code (collapseCasts t) := by
  rw [collapseCasts_eq]
  exact inCode_castApart_of_collapsed (codeEdited_mapCode editsCode_findCasts t)

/-- A row of casts that stand apart is written as it is. -/
theorem moreCasts_of_inCode {type rest : Text} (htype : type ∈ primitives)
    (h : InCode CastApart .code (castText type ++ rest)) :
    writeCasts (type :: (moreCasts rest).2) = castText type ++ (moreCasts rest).1 := by
  have hbehind {type rest : Text} (htype : type ∈ primitives) (h : InCode CastApart .code (castText type ++ rest)) :
      InCode CastApart .code rest := h.of_append fun c hc => of_inCast (by decide) (inCast_of_mem htype c hc)
  induction rest using casts_induction generalizing type with
  | none rest hnone =>
    rw [moreCasts_of_none hnone]
    simp [writeCasts, dedupAdjacent]
  | cast b next rest hb hnext ih =>
    have happart := h.1 rfl type _ (cast?_eq_some_iff.2 ⟨htype, rfl⟩) next
      (nextCast_eq_some_iff.2 ⟨hnext, b, rest, rfl, hb⟩)
    obtain ⟨hne, hgap⟩ := happart
    obtain rfl : b = [] := by
      cases b with
      | nil => rfl
      | cons c b =>
        rw [List.cons_append, List.head?_cons, Option.any_some, hb c List.mem_cons_self] at hgap
        cases hgap
    have hrest := ih hnext (hbehind htype h)
    rw [moreCasts_append hb hnext]
    simp only [List.nil_append]
    rw [writeCasts, dedupAdjacent, if_neg (Ne.symm hne), List.flatMap_cons, ← writeCasts, hrest]

/-- **Where casts stand apart there is nothing to collapse.** -/
theorem collapseCasts_of_inCode {t : Text} (h : InCode CastApart .code t) : collapseCasts t = t := by
  rw [collapseCasts_eq]
  refine mapCode_of_inCode editsCode_findCasts (h.mono fun u hu hne m types hfind => ?_)
  obtain ⟨type, r, rest, rfl, htype, rfl, hr, rfl, -⟩ := findCasts_spell hfind
  rw [List.append_assoc, ← hr] at hu
  exact moreCasts_of_inCode htype hu

end JavaMend.Java
