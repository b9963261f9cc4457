import JavaMend.Text

/-!
# `Text.Lines` — lines and their terminators

`\n`, `\r` and `\r\n` each end a line. A terminator at the very end of a text ends its last line and opens no
further one.

## Contents
- `lines`, `endsWithNewline`, `unlines`, `toLF`.
- `not_mem_lines`: a line holds no terminator.
- `length_lines_le`: there are at most as many lines as characters.
- `lines_append_ended`, `lines_append_newline`, `lines_terminated`: the lines of a text that was put together from lines.
-/

namespace JavaMend.Text

/-- Put a character in front of the first line. -/
def consLine (c : Char) : List Text → List Text
  | []           => [[c]]
  | line :: rest => (c :: line) :: rest

/-- The lines of a text, without their terminators. -/
def lines : Text → List Text
  | []               => []
  | '\r' :: '\n' :: t => [] :: lines t
  | c :: t           => if c = '\n' ∨ c = '\r' then [] :: lines t else consLine c (lines t)

/-- The text ends with a line terminator. -/
def endsWithNewline (t : Text) : Bool := t.getLast? == some '\n' || t.getLast? == some '\r'

/-- Lines in a row, each but the last ended by `\n`, and the last one too if `terminated`. -/
def unlines (ls : List Text) (terminated : Bool) : Text :=
  joinWith ['\n'] ls ++ (if terminated && !ls.isEmpty then ['\n'] else [])

/-- The text with `\n` for every line terminator. -/
def toLF (t : Text) : Text :=
  if '\r' ∈ t then unlines (lines t) (endsWithNewline t) else t

/-! ## The lines -/

theorem mem_consLine {c : Char} {ls : List Text} {l : Text} (h : l ∈ consLine c ls) :
    (∃ m, (m = [] ∨ m ∈ ls) ∧ l = c :: m) ∨ l ∈ ls := by
  cases ls with
  | nil => simp only [consLine, List.mem_singleton] at h; exact .inl ⟨[], .inl rfl, h⟩
  | cons m ms =>
    simp only [consLine, List.mem_cons] at h
    rcases h with rfl | h
    · exact .inl ⟨m, .inr (by simp), rfl⟩
    · exact .inr (by simp [h])

/-- A line holds no terminator. -/
theorem not_mem_lines {t l : Text} (h : l ∈ lines t) : '\n' ∉ l ∧ '\r' ∉ l := by
  fun_induction lines t generalizing l with
  | case1 => simp at h
  | case2 t ih =>
    rcases List.mem_cons.1 h with rfl | h
    · simp
    · exact ih h
  | case3 c t _ hc ih =>
    rcases List.mem_cons.1 h with rfl | h
    · simp
    · exact ih h
  | case4 c t _ hc ih =>
    rcases mem_consLine h with ⟨m, hm, rfl⟩ | h
    · have hm' : '\n' ∉ m ∧ '\r' ∉ m := by
        rcases hm with rfl | hm
        · simp
        · exact ih hm
      have hc' : c ≠ '\n' ∧ c ≠ '\r' := not_or.1 hc
      simp [hm', Ne.symm hc'.1, Ne.symm hc'.2]
    · exact ih h

theorem length_consLine_le (c : Char) (ls : List Text) : (consLine c ls).length ≤ ls.length + 1 := by
  cases ls <;> simp [consLine]

/-- There are at most as many lines as characters. -/
theorem length_lines_le (t : Text) : (lines t).length ≤ t.length := by
  fun_induction lines t with
  | case1 => simp
  | case2 t ih => simp only [List.length_cons]; omega
  | case3 c t _ _ ih => simp only [List.length_cons]; omega
  | case4 c t _ _ ih =>
    have := length_consLine_le c (lines t)
    simp only [List.length_cons]; omega

@[simp] theorem lines_nil : lines [] = [] := rfl

/-- Away from carriage returns, only `\n` ends a line. -/
theorem lines_cons {c : Char} (hc : c ≠ '\r') (t : Text) :
    lines (c :: t) = if c = '\n' then [] :: lines t else consLine c (lines t) := by
  rw [lines]
  · simp [hc]
  · exact fun _ hcr => absurd hcr hc

/-- What stands in front of a terminator is the first line. -/
theorem lines_append_ended {l t : Text} {ls : List Text} (hn : '\n' ∉ l) (hr : '\r' ∉ l) (h : lines t = [] :: ls) :
    lines (l ++ t) = l :: ls := by
  induction l with
  | nil => exact h
  | cons c l ih =>
    rw [List.mem_cons, not_or] at hn hr
    rw [List.cons_append, lines_cons (Ne.symm hr.1), if_neg (Ne.symm hn.1), ih hn.2 hr.2, consLine]

/-- A line and its terminator in front of a text are one more line. -/
theorem lines_append_newline {l : Text} (hn : '\n' ∉ l) (hr : '\r' ∉ l) (t : Text) :
    lines (l ++ '\n' :: t) = l :: lines t :=
  lines_append_ended hn hr (by rw [lines_cons (by decide), if_pos rfl])

/-- Lines that are each ended by `\n` are the lines of the text that they make. -/
theorem lines_terminated {ls : List Text} (h : ∀ l ∈ ls, '\n' ∉ l ∧ '\r' ∉ l) :
    lines (ls.flatMap fun l => l ++ ['\n']) = ls := by
  induction ls with
  | nil => rfl
  | cons l ls ih =>
    obtain ⟨hn, hr⟩ := h l List.mem_cons_self
    rw [List.flatMap_cons, List.append_assoc, List.singleton_append, lines_append_newline hn hr,
      ih fun k hk => h k (List.mem_cons_of_mem l hk)]

@[simp] theorem unlines_nil (terminated : Bool) : unlines [] terminated = [] := by
  simp [unlines, joinWith]

end JavaMend.Text
