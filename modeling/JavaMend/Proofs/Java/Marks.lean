import JavaMend.Java.Qualified
import JavaMend.Text.Lines

/-!
# `Proofs.Java.Marks` — counting what an edit uses up

Some edits of a normalisation use up something that no other edit gives back: a comment that goes takes a colon with
it, an integer that is named was the start of a number, a class that is renamed had a package that ends with `c.`.
Such signs are counted character by character, with no more than the character before in view; so what one edit does
to the count can be said about the piece of text that it replaces, in whatever place that stands.

## Contents
- **Marks.** `Mark`, `Mark.marks`, `Mark.isPlain`.
- **Counting.** `tally`, `endOf`; `tally_append`, `tally_of_plain`.
- **Shedding.** `Sheds`, `Pays`; `Sheds.append`, `Sheds.replace`, `Pays.substitute`, `Pays.mapCode`.
- **Lines.** `total`, `total_map_lt`, `total_joinWith`; `weight` with `weight_splitOn`.
-/

namespace JavaMend.Java

open JavaMend Text

/-! ## Marks -/

/-- What is counted. -/
inductive Mark where
  | carriageReturn
  | colon
  /-- A digit that opens a number. -/
  | number
  /-- A dot behind a `c`, such as the last one of `net.minecraft.src.`. -/
  | source
deriving DecidableEq, Repr

namespace Mark

/-- All marks. -/
def all : List Mark := [.carriageReturn, .colon, .number, .source]

theorem mem_all (m : Mark) : m ∈ all := by cases m <;> decide

/-- The character behind `before` is counted. -/
def marks : Mark → Option Char → Char → Bool
  | .carriageReturn, _,      c => c == '\r'
  | .colon,          _,      c => c == ':'
  | .number,         before, c => isAsciiDigit c && !before.any inClassName
  | .source,         before, c => c == '.' && before == some 'c'

/-- The character is never counted. -/
def isPlain (c : Char) : Bool := c != '\r' && c != ':' && c != '.' && !isAsciiDigit c

theorem marks_of_plain (m : Mark) (before : Option Char) {c : Char} (h : isPlain c = true) :
    m.marks before c = false := by
  simp only [isPlain, Bool.and_eq_true, bne_iff_ne, Bool.not_eq_true'] at h
  cases m <;> simp [marks, h]

/-- Behind a character that stands in no name everything is as at the start. -/
theorem marks_of_gap (m : Mark) {b : Char} (hb : inClassName b = false) (c : Char) :
    m.marks (some b) c = m.marks none c := by
  cases m with
  | carriageReturn => rfl
  | colon => rfl
  | number => simp [marks, hb]
  | source =>
    have hne : b ≠ 'c' := by
      rintro rfl
      exact absurd hb (by decide)
    simp [marks, hne]

/-- Behind a character of a name that is no `c` the least is counted. -/
theorem marks_of_inClassName (m : Mark) {b : Char} (hb : inClassName b = true) (hc : b ≠ 'c') {c : Char}
    (h : m.marks (some b) c = true) (before : Option Char) : m.marks before c = true := by
  cases m with
  | carriageReturn => exact h
  | colon => exact h
  | number => simp [marks, hb] at h
  | source => simp [marks, hc] at h

end Mark

variable {m : Mark} {k l : Nat}

/-! ## Counting -/

/-- How often a mark stands in a text that follows `before`. -/
def tally (m : Mark) : Option Char → Text → Nat
  | _,      []     => 0
  | before, c :: t => (m.marks before c).toNat + tally m (some c) t

/-- The character before what follows a text. -/
def endOf : Option Char → Text → Option Char
  | before, []     => before
  | _,      c :: t => endOf (some c) t

@[simp] theorem tally_nil (m : Mark) (before : Option Char) : tally m before [] = 0 := rfl

theorem tally_cons (m : Mark) (before : Option Char) (c : Char) (t : Text) :
    tally m before (c :: t) = (m.marks before c).toNat + tally m (some c) t := rfl

theorem tally_append (m : Mark) (before : Option Char) (s t : Text) :
    tally m before (s ++ t) = tally m before s + tally m (endOf before s) t := by
  induction s generalizing before with
  | nil => simp [endOf]
  | cons c s ih => rw [List.cons_append, tally_cons, ih, tally_cons, endOf, Nat.add_assoc]

theorem endOf_append (before : Option Char) (s t : Text) : endOf before (s ++ t) = endOf (endOf before s) t := by
  induction s generalizing before with
  | nil => rfl
  | cons c s ih => exact ih (some c)

theorem endOf_concat (before : Option Char) (s : Text) (d : Char) : endOf before (s ++ [d]) = some d := by
  induction s generalizing before with
  | nil => rfl
  | cons c s ih => exact ih (some c)

/-- Where the first character is plain, it does not matter what stands before. -/
theorem tally_cons_plain (before : Option Char) {c : Char} (h : Mark.isPlain c = true) (t : Text) :
    tally m before (c :: t) = tally m (some c) t := by
  rw [tally_cons, m.marks_of_plain before h, Bool.toNat_false, Nat.zero_add]

theorem tally_of_plain (before : Option Char) {t : Text} (h : t.all Mark.isPlain = true) : tally m before t = 0 := by
  induction t generalizing before with
  | nil => rfl
  | cons c t ih =>
    rw [List.all_cons, Bool.and_eq_true] at h
    rw [tally_cons_plain before h.1, ih _ h.2]

theorem tally_after_gap {b : Char} (hb : inClassName b = false) (t : Text) : tally m (some b) t = tally m none t := by
  cases t with
  | nil => rfl
  | cons c t => rw [tally_cons, tally_cons, m.marks_of_gap hb]

/-- More is counted where more is at the first character. -/
theorem tally_le_of_marks {before before' : Option Char} (h : ∀ c, m.marks before c = true → m.marks before' c = true)
    (t : Text) : tally m before t ≤ tally m before' t := by
  cases t with
  | nil => exact Nat.le_refl 0
  | cons c t =>
    rw [tally_cons, tally_cons]
    refine Nat.add_le_add_right ?_ _
    cases hc : m.marks before c with
    | false => exact Nat.zero_le _
    | true => exact Nat.le_of_eq (by rw [h c hc])

/-! ## Shedding -/

/-- In whatever place, the second text has fewer marks than the first, by `k` at least. -/
def Sheds (m : Mark) (k : Nat) (s t : Text) : Prop :=
  ∀ before rest, tally m before (t ++ rest) + k ≤ tally m before (s ++ rest)

namespace Sheds

theorem refl (m : Mark) (t : Text) : Sheds m 0 t t := fun _ _ => Nat.le_refl _

theorem le {s t : Text} (h : Sheds m k s t) (before : Option Char) : tally m before t + k ≤ tally m before s := by
  simpa using h before []

theorem mono {s t : Text} (h : Sheds m k s t) (hl : l ≤ k) : Sheds m l s t := fun before rest => by
  have := h before rest
  omega

theorem trans {s t u : Text} (h : Sheds m k s t) (h' : Sheds m l t u) : Sheds m (k + l) s u := fun before rest => by
  have h1 := h before rest
  have h2 := h' before rest
  omega

theorem append {s t s' t' : Text} (h : Sheds m k s t) (h' : Sheds m l s' t') :
    Sheds m (k + l) (s ++ s') (t ++ t') := fun before rest => by
  have h1 := h before (t' ++ rest)
  have h2 := h' (endOf before s) rest
  rw [tally_append m before s] at h1
  rw [List.append_assoc, List.append_assoc, tally_append m before s (s' ++ rest)]
  omega

/-- A text can be replaced by one that ends in a harmless character. -/
theorem replace {s t : Text} {d : Char} (htally : ∀ before, tally m before (t ++ [d]) + k ≤ tally m before s)
    (hend : ∀ before c, m.marks (some d) c = true → m.marks (endOf before s) c = true) : Sheds m k s (t ++ [d]) :=
  fun before rest => by
    have h1 := htally before
    have h2 := tally_le_of_marks (hend before) rest
    rw [tally_append m before s, tally_append m before (t ++ [d]), endOf_concat]
    omega

end Sheds

/-- The second text is the first or has fewer marks, by `k` at least. -/
def Pays (m : Mark) (k : Nat) (s t : Text) : Prop := t = s ∨ Sheds m k s t

namespace Pays

theorem refl (m : Mark) (k : Nat) (t : Text) : Pays m k t t := .inl rfl

theorem sheds {s t : Text} (h : Pays m k s t) : Sheds m 0 s t := by
  rcases h with rfl | h
  · exact .refl m t
  · exact h.mono (Nat.zero_le k)

theorem trans {s t u : Text} (h : Pays m k s t) (h' : Pays m k t u) : Pays m k s u := by
  rcases h with rfl | h
  · exact h'
  · exact .inr (h.trans h'.sheds)

theorem append {s t s' t' : Text} (h : Pays m k s t) (h' : Pays m k s' t') : Pays m k (s ++ s') (t ++ t') := by
  rcases h with rfl | h
  · rcases h' with rfl | h'
    · exact .refl m k _
    · exact .inr (((Sheds.refl m t).append h').mono (by omega))
  · exact .inr ((h.append h'.sheds).mono (by omega))

theorem cons {s t : Text} (c : Char) (h : Pays m k s t) : Pays m k (c :: s) (c :: t) := (Pays.refl m k [c]).append h

theorem flatMap {α : Type} {as : List α} {f g : α → Text} (h : ∀ a ∈ as, Pays m k (f a) (g a)) :
    Pays m k (as.flatMap f) (as.flatMap g) := by
  induction as with
  | nil => exact .refl m k []
  | cons a as ih =>
    rw [List.flatMap_cons, List.flatMap_cons]
    exact (h a List.mem_cons_self).append (ih fun b hb => h b (List.mem_cons_of_mem a hb))

/-- Replacing hits pays if each replacement does. -/
theorem substitute {α : Type} {find : Finder α} {write : Text → α → Text} (hfind : find.Faithful)
    (h : ∀ before t found a, find before t = some (found, a) → Pays m k found (write found a)) (t : Text) :
    Pays m k t (substitute find write t) := by
  have hhit {before : Option Char} {t found : Text} {a : α} (hmem : Piece.hit found a ∈ pieces find before t) :
      Pays m k found (write found a) := by
    fun_induction pieces find before t with
    | case1 => simp at hmem
    | case2 before c t hnone ih => exact ih (by simpa using hmem)
    | case3 before c t found' a' hsome ih =>
      rcases List.mem_cons.1 hmem with heq | hmem
      · cases heq
        exact h before (c :: t) found a hsome
      · exact ih hmem
  conv => arg 3; rw [← source_pieces hfind none t]
  refine Pays.flatMap fun p hp => ?_
  cases p with
  | plain c => exact .refl m k [c]
  | hit found a => exact hhit hp

theorem mapCode {f : Text → Text} (h : ∀ code, Pays m k code (f code)) (t : Text) : Pays m k t (mapCode f t) := by
  conv => arg 3; rw [← source_segments t]
  refine Pays.flatMap fun s _ => ?_
  split
  · exact h s.text
  · exact .refl m k s.text

end Pays

/-! ## Lines -/

theorem tally_newline (before : Option Char) (t : Text) : tally m before ('\n' :: t) = tally m none t := by
  rw [tally_cons_plain before (by decide), tally_after_gap (by decide)]

/-- A measure of texts, of all lines together. -/
def total (μ : Text → Nat) : List Text → Nat
  | []      => 0
  | l :: ls => μ l + total μ ls

section
variable {μ : Text → Nat}

@[simp] theorem total_nil (μ : Text → Nat) : total μ [] = 0 := rfl

@[simp] theorem total_cons (μ : Text → Nat) (l : Text) (ls : List Text) : total μ (l :: ls) = μ l + total μ ls := rfl

@[simp] theorem total_append (μ : Text → Nat) (ls ks : List Text) : total μ (ls ++ ks) = total μ ls + total μ ks := by
  induction ls with
  | nil => simp
  | cons l ls ih => rw [List.cons_append, total_cons, total_cons, ih, Nat.add_assoc]

theorem total_le_of_sublist {ls ks : List Text} (h : ls.Sublist ks) : total μ ls ≤ total μ ks := by
  induction h with
  | slnil => exact Nat.le_refl 0
  | cons l _ ih => exact Nat.le_trans ih (Nat.le_add_left _ _)
  | cons_cons l _ ih => exact Nat.add_le_add_left ih _

theorem total_eq_zero_iff {ls : List Text} : total μ ls = 0 ↔ ∀ l ∈ ls, μ l = 0 := by
  induction ls with
  | nil => simp
  | cons l ls ih => rw [total_cons, Nat.add_eq_zero_iff, ih, List.forall_mem_cons]

/-- Texts that each measure less do so together. -/
theorem total_map_le {α : Type} {f g : α → Text} {as : List α} (h : ∀ a ∈ as, μ (f a) ≤ μ (g a)) :
    total μ (as.map f) ≤ total μ (as.map g) := by
  induction as with
  | nil => exact Nat.le_refl 0
  | cons a as ih =>
    obtain ⟨ha, has⟩ := List.forall_mem_cons.1 h
    exact Nat.add_le_add ha (ih has)

theorem total_map_lt {α : Type} {f g : α → Text} {as : List α} (h : ∀ a ∈ as, μ (f a) ≤ μ (g a)) {b : α}
    (hb : b ∈ as) (hlt : μ (f b) < μ (g b)) : total μ (as.map f) < total μ (as.map g) := by
  induction as with
  | nil => cases hb
  | cons a as ih =>
    obtain ⟨ha, has⟩ := List.forall_mem_cons.1 h
    rcases List.mem_cons.1 hb with rfl | hb
    · exact Nat.add_lt_add_of_lt_of_le hlt (total_map_le has)
    · exact Nat.add_lt_add_of_le_of_lt ha (ih has hb)

/-- Parts in a row measure what the parts do if the separator counts for nothing. -/
theorem total_joinWith {sep : Text} (hnil : μ [] = 0) (hsep : ∀ s t, μ (s ++ (sep ++ t)) = μ s + μ t) (ls : List Text) :
    μ (joinWith sep ls) = total μ ls := by
  induction ls with
  | nil => exact hnil
  | cons l ls ih =>
    cases ls with
    | nil => simp [joinWith]
    | cons k ks => rw [joinWith, List.append_assoc, hsep, ih, total_cons μ l]

end

/-- How often a mark stands in lines. -/
def weight (m : Mark) (ls : List Text) : Nat := total (tally m none) ls

@[simp] theorem weight_nil (m : Mark) : weight m [] = 0 := rfl

@[simp] theorem weight_cons (m : Mark) (l : Text) (ls : List Text) :
    weight m (l :: ls) = tally m none l + weight m ls := rfl

@[simp] theorem weight_append (m : Mark) (ls ks : List Text) : weight m (ls ++ ks) = weight m ls + weight m ks :=
  total_append _ ls ks

theorem weight_le_of_sublist {ls ks : List Text} (h : ls.Sublist ks) : weight m ls ≤ weight m ks :=
  total_le_of_sublist h

theorem tally_append_newline (s t : Text) : tally m none (s ++ '\n' :: t) = tally m none s + tally m none t := by
  rw [tally_append, tally_newline]

theorem tally_joinWith_newline (ls : List Text) : tally m none (joinWith ['\n'] ls) = weight m ls :=
  total_joinWith rfl tally_append_newline ls

/-- **A text has the marks of its lines.** -/
theorem weight_splitOn (t : Text) : weight m (splitOn '\n' t) = tally m none t := by
  rw [← tally_joinWith_newline, joinWith_splitOn]

/-- Writing every line terminator as a line end takes marks away only. -/
theorem tally_joinWith_lines_le (before : Option Char) (t : Text) :
    tally m before (joinWith ['\n'] (lines t)) ≤ tally m before t := by
  have hline (before : Option Char) (ls : List Text) :
      tally m before (joinWith ['\n'] ([] :: ls)) ≤ tally m none (joinWith ['\n'] ls) := by
    cases ls with
    | nil => exact Nat.zero_le _
    | cons l ls => exact Nat.le_of_eq (tally_newline before _)
  fun_induction lines t generalizing before with
  | case1 => exact Nat.zero_le _
  | case2 t ih =>
    have h := Nat.le_trans (hline before (lines t)) (ih none)
    rw [tally_cons, tally_newline]
    omega
  | case3 c t _ hc ih =>
    have hgap : inClassName c = false := by
      rcases hc with rfl | rfl
      · decide
      · decide
    have h := Nat.le_trans (hline before (lines t)) (ih none)
    rw [tally_cons, tally_after_gap hgap]
    omega
  | case4 c t _ _ ih =>
    have hcons : joinWith ['\n'] (consLine c (lines t)) = c :: joinWith ['\n'] (lines t) := by
      cases lines t with
      | nil => rfl
      | cons l ls => exact joinWith_cons_cons ['\n'] c l ls
    rw [hcons, tally_cons, tally_cons]
    exact Nat.add_le_add_left (ih (some c)) _

theorem weight_lines_le (t : Text) : weight m (lines t) ≤ tally m none t := by
  rw [← tally_joinWith_newline]
  exact tally_joinWith_lines_le none t

end JavaMend.Java
