import JavaMend.Proofs.Java.ByteSegments
import JavaMend.Proofs.Lines

/-!
# `Proofs.ByteLines` — finding lines byte by byte

The lines of a text can be found in its bytes, with positions that go from byte to byte and are not told where the
characters begin. A terminator is made of single bytes that no longer character has; so a scan of the bytes only ever cuts
the text between characters, and finds the lines (`scanLines_utf8`). Taking apart and joining are inverse, up to which
terminators a text has (`lines_inverse`).

## Contents
- **Scanning.** `terminatorEnd?`, `scanLines`.
- **Terminators.** `terminatorEnd?_newline`, `terminatorEnd?_pair`, `terminatorEnd?_lone`; `scanLines_kept`, `scanLines_ended`.
- **Lines.** `scanLines_utf8`; `lines_inverse`.
-/

namespace JavaMend.Text

open Java

/-! ## Scanning -/

/-- Where the terminator at the position ends, if there is one. -/
def terminatorEnd? (b : Bytes) (i : Nat) : Option Nat :=
  if b[i]? = some (byte '\n') then some (i + 1)
  else if b[i]? = some (byte '\r') then some (if b[i + 1]? = some (byte '\n') then i + 2 else i + 1)
  else none

theorem lt_of_terminatorEnd? {b : Bytes} {i next : Nat} (h : terminatorEnd? b i = some next) : i < next := by
  unfold terminatorEnd? at h
  split at h
  · cases h
    omega
  · split at h
    · split at h <;> (cases h; omega)
    · cases h

/-- The lines from a position on, the first of which begins at `start`. What is left behind the last terminator is a line
    if it is not empty. There are no lines if the text is cut in a character. -/
def scanLines (b : Bytes) (start i : Nat) : Option (List Bytes) :=
  if i < b.length then
    match _h : terminatorEnd? b i with
    | none      => scanLines b start (i + 1)
    | some next => do
      let line ← slice? b start i
      let rest ← scanLines b next next
      return line :: rest
  else if start < b.length then (slice? b start b.length).map ([·])
  else some []
termination_by b.length - i
decreasing_by
  · omega
  · have := lt_of_terminatorEnd? _h
    omega

theorem scanLines_next {b : Bytes} {i : Nat} (hlt : i < b.length) (h : terminatorEnd? b i = none) (start : Nat) :
    scanLines b start i = scanLines b start (i + 1) := by
  rw [scanLines, if_pos hlt]
  split
  · rfl
  · rename_i hsome
    rw [h] at hsome
    cases hsome

/-! ## Terminators -/

section
variable {p q e t : Text} {c : Char}

theorem terminatorEnd?_newline (p t : Text) :
    terminatorEnd? (utf8 (p ++ ['\n'] ++ t)) (size p) = some (size (p ++ ['\n'])) := by
  rw [terminatorEnd?, List.append_assoc, if_pos ((getElem?_size_iff (by decide)).2 rfl), size_append]
  rfl

/-- A carriage return ends a line together with a `\n` behind it, and else alone. -/
theorem terminatorEnd?_carriageReturn (p t : Text) :
    terminatorEnd? (utf8 (p ++ '\r' :: t)) (size p) = some (if t.head? = some '\n' then size p + 2 else size p + 1) := by
  have hhere : (utf8 (p ++ '\r' :: t))[size p]? = some (byte '\r') := (getElem?_size_iff (by decide)).2 rfl
  have hnext : (utf8 (p ++ '\r' :: t))[size p + 1]? = some (byte '\n') ↔ t.head? = some '\n' := by
    rw [← size_ascii (show '\r'.toNat < 0x80 by decide), ← size_append, List.append_cons]
    exact getElem?_size_iff (by decide)
  rw [terminatorEnd?, hhere, if_neg (by decide), if_pos rfl]
  simp only [hnext]

theorem terminatorEnd?_pair (p t : Text) :
    terminatorEnd? (utf8 (p ++ ['\r', '\n'] ++ t)) (size p) = some (size (p ++ ['\r', '\n'])) := by
  rw [List.append_assoc]
  exact (terminatorEnd?_carriageReturn p ('\n' :: t)).trans (by rw [if_pos List.head?_cons, size_append]; rfl)

theorem terminatorEnd?_lone (p : Text) (h : t.head? ≠ some '\n') :
    terminatorEnd? (utf8 (p ++ ['\r'] ++ t)) (size p) = some (size (p ++ ['\r'])) := by
  rw [List.append_assoc]
  exact (terminatorEnd?_carriageReturn p t).trans (by rw [if_neg h, size_append]; rfl)

/-- **A character that is no terminator is passed over**, all its bytes. -/
theorem scanLines_kept (hn : c ≠ '\n') (hr : c ≠ '\r') (p t : Text) (start : Nat) :
    scanLines (utf8 (p ++ c :: t)) start (size p) = scanLines (utf8 (p ++ c :: t)) start (size (p ++ [c])) := by
  have hlength : (utf8 (p ++ c :: t)).length = size (p ++ [c]) + size t := by
    rw [length_utf8, List.append_cons, size_append]
  have hsize : size p < size (p ++ [c]) := by
    have := size_pos (List.cons_ne_nil c [])
    rw [size_append]
    omega
  have hmark {a : Char} (ha : a.toNat < 0x80) (hne : c ≠ a) : ¬ (utf8 (p ++ c :: t))[size p]? = some (byte a) := by
    rw [getElem?_size_iff ha]
    simpa using hne
  have hhere : terminatorEnd? (utf8 (p ++ c :: t)) (size p) = none := by
    rw [terminatorEnd?, if_neg (hmark (by decide) hn), if_neg (hmark (by decide) hr)]
  rw [scanLines_next (by omega) hhere]
  refine eq_behind fun i hlo hhi => scanLines_next (by omega) ?_ start
  -- The bytes within the character are no terminators either.
  obtain ⟨x, hx, hge⟩ := exists_of_inside (y := t) hlo hhi
  have hne {a : Char} (ha : a.toNat < 0x80) : ¬ some x = some (byte a) := mt Option.some.inj (ne_byte_of_le ha hge)
  rw [terminatorEnd?, hx, if_neg (hne (by decide)), if_neg (hne (by decide))]

/-- **At a terminator the line is cut off**, and the next one begins behind it. -/
theorem scanLines_ended (he : e ≠ [])
    (hend : terminatorEnd? (utf8 (p ++ q ++ e ++ t)) (size (p ++ q)) = some (size (p ++ q ++ e)))
    (hrest : ∀ p, scanLines (utf8 (p ++ t)) (size p) (size p) = some ((lines t).map utf8)) :
    scanLines (utf8 (p ++ q ++ e ++ t)) (size p) (size (p ++ q)) = some ((q :: lines t).map utf8) := by
  have hlt : size (p ++ q) < (utf8 (p ++ q ++ e ++ t)).length := by
    have := size_pos he
    rw [length_utf8, size_append _ t, size_append _ e]
    omega
  have hslice : slice? (utf8 (p ++ q ++ e ++ t)) (size p) (size (p ++ q)) = some (utf8 q) := by
    rw [List.append_assoc (p ++ q)]
    exact slice?_utf8 p q (e ++ t)
  rw [scanLines, if_pos hlt]
  split
  · rename_i hnone
    rw [hend] at hnone
    cases hnone
  · rename_i next hnext
    obtain rfl : size (p ++ q ++ e) = next := Option.some.inj (hend.symm.trans hnext)
    rw [hslice, hrest (p ++ q ++ e)]
    rfl

end

/-! ## Lines -/

/-- **The scan of the bytes finds the lines**, and never cuts the text in a character. It has passed over `q`, with which
    the present line begins. -/
theorem scanLines_utf8 {q : Text} (hn : '\n' ∉ q) (hr : '\r' ∉ q) (p t : Text) :
    scanLines (utf8 (p ++ q ++ t)) (size p) (size (p ++ q)) = some ((lines (q ++ t)).map utf8) := by
  -- Behind a terminator the scan begins anew.
  have hanew {t : Text} (ih : ∀ {q : Text}, '\n' ∉ q → '\r' ∉ q → ∀ p,
      scanLines (utf8 (p ++ q ++ t)) (size p) (size (p ++ q)) = some ((lines (q ++ t)).map utf8)) (p : Text) :
      scanLines (utf8 (p ++ t)) (size p) (size p) = some ((lines t).map utf8) := by
    simpa using @ih [] (by simp) (by simp) p
  -- By induction on the text that is left: a kept character goes over to `q`, a terminator ends it.
  induction t using lines_induction generalizing p q with
  | nil =>
    rw [List.append_nil, List.append_nil, scanLines, if_neg (by simp [length_utf8])]
    by_cases hq : q = []
    · subst hq
      simp [length_utf8]
    · have hpos := size_pos hq
      rw [if_pos (by rw [length_utf8, size_append]; omega), slice?_rest, lines_of_not_mem hn hr hq]
      rfl
  | newline t ih =>
    rw [lines_append_ended hn hr (lines_newline t), List.append_cons]
    exact scanLines_ended (List.cons_ne_nil _ _) (terminatorEnd?_newline (p ++ q) t) (hanew ih)
  | pair t ih =>
    rw [lines_append_ended hn hr (lines_pair t), show '\r' :: '\n' :: t = ['\r', '\n'] ++ t from rfl, ← List.append_assoc]
    exact scanLines_ended (List.cons_ne_nil _ _) (terminatorEnd?_pair (p ++ q) t) (hanew ih)
  | lone t hlone ih =>
    rw [lines_append_ended hn hr (lines_lone hlone), List.append_cons]
    exact scanLines_ended (List.cons_ne_nil _ _) (terminatorEnd?_lone (p ++ q) hlone) (hanew ih)
  | kept c t hcn hcr ih =>
    rw [scanLines_kept hcn hcr]
    simpa using @ih (q ++ [c]) (by simp [hn, Ne.symm hcn]) (by simp [hr, Ne.symm hcr]) p

/-- **Taking a text apart and joining its lines are inverse.** The lines are those that a scan of the bytes finds. Joined
    they are the text with `\n` for each `\r\n` and each lone `\r`; no other text is, it has no carriage return, and it is
    its own normal form. Lines without terminators that are joined are taken apart again: always if the last one is ended,
    and else just if it is not empty or there is none. -/
theorem lines_inverse (t : Text) :
    scanLines (utf8 t) 0 0 = some ((lines t).map utf8)
      ∧ unlines (lines t) (endsWithNewline t) = toLF t
      ∧ (∀ u, Unified t u ↔ u = toLF t)
      ∧ '\r' ∉ toLF t
      ∧ toLF (toLF t) = toLF t
      ∧ ∀ ls : List Text, (∀ l ∈ ls, '\n' ∉ l ∧ '\r' ∉ l) →
          lines (unlines ls true) = ls ∧ (lines (unlines ls false) = ls ↔ ls.getLast? ≠ some []) := by
  refine ⟨?scan, unlines_lines_eq_toLF t, fun u => unified_iff, not_mem_toLF t, ?normal, ?joined⟩
  case scan =>
    -- Nothing has been passed over at the start.
    exact @scanLines_utf8 [] (by simp) (by simp) [] t
  case normal => exact toLF_of_not_mem (not_mem_toLF t)
  case joined =>
    intro ls h
    exact ⟨lines_unlines h, lines_unlines_open_iff h⟩

/-- A lone `\r` before a `\r\n`, an empty line at the start, and two in a row before a line that is not ended. -/
theorem lines_inverse_mixed :
    (∀ l ∈ [[], text "é", [], [], text "b"], '\n' ∉ l ∧ '\r' ∉ l)
      ∧ scanLines (utf8 (text "é\r\r\n\r\nb\r")) 0 0 = some [[0xC3, 0xA9], [], [], [0x62]]
      ∧ toLF (text "é\r\r\n\r\nb\r") = text "é\n\n\nb\n"
      ∧ Unified (text "é\r\r\n\r\nb\r") (text "é\n\n\nb\n")
      ∧ lines (unlines [[], text "é", [], [], text "b"] true) = [[], text "é", [], [], text "b"]
      ∧ lines (unlines [[], text "é", [], [], text "b"] false) = [[], text "é", [], [], text "b"] := by
  have hlines : ∀ l ∈ [[], text "é", [], [], text "b"], '\n' ∉ l ∧ '\r' ∉ l := by decide
  have hlf : toLF (text "é\r\r\n\r\nb\r") = text "é\n\n\nb\n" := by decide
  obtain ⟨hscan, -, hone, -, -, hjoined⟩ := lines_inverse (text "é\r\r\n\r\nb\r")
  obtain ⟨hended, hopen⟩ := hjoined _ hlines
  exact ⟨hlines, hscan.trans (by decide), hlf, (hone _).2 hlf.symm, hended, hopen.2 (by decide)⟩

end JavaMend.Text
