import JavaMend.Proofs.ByteOrder
import JavaMend.Proofs.Java.SegmentGrammar
import Mathlib.Data.List.Chain

/-!
# `Proofs.Java.ByteSegments` — finding segments byte by byte

The segments of a text can be found in its bytes, with positions that go from byte to byte and are not told where the
characters begin. Marks are single bytes, and no byte of a longer character is one; so a scan of the bytes only ever cuts
the text between characters, and finds the segments (`scan_utf8`). These are the only ones that the text can be split into
(`scan_agrees`).

## Contents
- **Scanning.** `isCharBoundary`, `slice?`, `firstMark?`, `literalStop`; `openingAt?`, `codePiece`, `scan`.
- **Characters.** `utf8EncodeChar_cases`; `getElem?_size_iff`, `exists_of_inside`, `eq_behind`; `slice?_utf8`.
- **Marks.** `firstMark?_lineEnd`, `firstMark?_blockEnd`, `literalStop_utf8`.
- **Segments.** `openingAt?_utf8`, `codePiece_utf8`, `scan_code`; `scan_utf8`; `scan_agrees`.
-/

namespace JavaMend.Java

open JavaMend Text

/-! ## Scanning -/

/-- The byte of an ASCII character. -/
def byte (c : Char) : UInt8 := UInt8.ofNat c.toNat

/-- A character begins at the position, or the bytes end there. -/
def isCharBoundary (b : Bytes) (i : Nat) : Bool := i == 0 || i == b.length || b[i]?.any fun x => x < 0x80 || 0xC0 ≤ x

/-- The bytes between two positions. There are none if a position lies in a character. -/
def slice? (b : Bytes) (i j : Nat) : Option Bytes :=
  if isCharBoundary b i && isCharBoundary b j && i ≤ j then some ((b.take j).drop i) else none

/-- Where a mark is first found. -/
def firstMark? (mark : Bytes) : Bytes → Option Nat
  | []     => none
  | x :: b => if mark.isPrefixOf (x :: b) then some 0 else (firstMark? mark b).map (· + 1)

/-- Where a literal stops that goes on at the position. A backslash skips a byte. -/
def literalStop (b : Bytes) (quote : UInt8) (i : Nat) : Nat :=
  match _h : b[i]? with
  | none   => b.length
  | some x =>
    if x = byte '\\' then literalStop b quote (i + 2)
    else if x = byte '\n' then i
    else if x = quote then i + 1
    else literalStop b quote (i + 1)
termination_by b.length - i
decreasing_by
  all_goals
    have := (List.getElem?_eq_some_iff.1 _h).1
    omega

/-- What opens at a position and where it stops. The end of a comment is looked for in the text
    cut there. -/
def openingAt? (b : Bytes) (i : Nat) : Option (Option (SegmentKind × Nat)) :=
  if b[i]? = some (byte '/') ∧ b[i + 1]? = some (byte '/') then
    (slice? b i b.length).map fun rest =>
      some (.lineComment, ((firstMark? [byte '\n'] rest).map (i + ·)).getD b.length)
  else if b[i]? = some (byte '/') ∧ b[i + 1]? = some (byte '*') then
    (slice? b (i + 2) b.length).map fun rest =>
      some (.blockComment, ((firstMark? [byte '*', byte '/'] rest).map (i + 2 + · + 2)).getD b.length)
  else if b[i]? = some (byte '"') then some (some (.literal, literalStop b (byte '"') (i + 1)))
  else if b[i]? = some (byte '\'') then some (some (.literal, literalStop b (byte '\'') (i + 1)))
  else some none

/-- The code between two positions, if there is any. -/
def codePiece (b : Bytes) (start i : Nat) : Option (List (SegmentKind × Bytes)) :=
  if start < i then (slice? b start i).map fun code => [(.code, code)] else some []

/-- The segments from a position on, behind code that begins at `start`. There are none if the text is cut in a character or
    if a segment does not lead any further. -/
def scan (b : Bytes) (start i : Nat) : Option (List (SegmentKind × Bytes)) :=
  if i < b.length then
    match openingAt? b i with
    | none                      => none
    | some none                 => scan b start (i + 1)
    | some (some (kind, stop)) =>
      if i < stop then do
        let code ← codePiece b start i
        let found ← slice? b i stop
        let rest ← scan b stop stop
        return code ++ (kind, found) :: rest
      else none
  else codePiece b start b.length
termination_by b.length - i

/-! ## Characters -/

/-- An ASCII character is its byte; another one has bytes that none of these are. -/
theorem utf8EncodeChar_cases (c : Char) :
    c.toNat < 0x80 ∧ String.utf8EncodeChar c = [byte c] ∨
      0x80 ≤ c.toNat ∧ ∃ lead rest, String.utf8EncodeChar c = lead :: rest ∧ 0xC0 ≤ lead ∧ ∀ x ∈ rest, 0x80 ≤ x := by
  have hle (v : Nat) {w : Nat} (h : v ≤ w) (hw : w < 256) : UInt8.ofNat v ≤ UInt8.ofNat w := by
    rw [UInt8.le_iff_toNat_le, UInt8.toNat_ofNat_of_lt' (Nat.lt_of_le_of_lt h hw), UInt8.toNat_ofNat_of_lt' hw]
    exact h
  unfold byte String.utf8EncodeChar
  change c.val.toNat < 128 ∧ _ = [UInt8.ofNat c.val.toNat] ∨ 128 ≤ c.val.toNat ∧ _
  generalize c.val.toNat = v
  simp only
  split
  · exact .inl ⟨by omega, rfl⟩
  · refine .inr ⟨by omega, ?_⟩
    -- One case for each number of bytes.
    repeat' split
    all_goals
      refine ⟨_, _, rfl, hle 192 (by omega) (by omega), fun x hx => ?_⟩
      simp only [List.mem_cons, List.not_mem_nil, or_false] at hx
    · subst hx
      exact hle 128 (by omega) (by omega)
    · rcases hx with rfl | rfl <;> exact hle 128 (by omega) (by omega)
    · rcases hx with rfl | rfl | rfl <;> exact hle 128 (by omega) (by omega)

/-- How many bytes a text takes. -/
def size (t : Text) : Nat := (utf8 t).length

theorem utf8_append (x y : Text) : utf8 (x ++ y) = utf8 x ++ utf8 y := List.flatMap_append

theorem size_append (x y : Text) : size (x ++ y) = size x + size y := by
  rw [size, utf8_append, List.length_append, size, size]

theorem size_pos {t : Text} (h : t ≠ []) : 0 < size t := by
  cases t with
  | nil => exact absurd rfl h
  | cons c t =>
    rw [size, utf8_cons, List.length_append]
    have := List.length_pos_iff.2 (String.utf8EncodeChar_ne_nil : String.utf8EncodeChar c ≠ [])
    omega

theorem size_ascii {a : Char} (ha : a.toNat < 0x80) : size [a] = 1 := by
  rcases utf8EncodeChar_cases a with ⟨-, henc⟩ | ⟨hge, -⟩
  · simp [size, utf8, henc]
  · omega

theorem byte_inj {a c : Char} (ha : a.toNat < 0x80) (hc : c.toNat < 0x80) : byte a = byte c ↔ a = c := by
  have hlt {c : Char} (hc : c.toNat < 0x80) : c.toNat < UInt8.size := Nat.lt_trans hc (by decide)
  rw [byte, byte, ← UInt8.toNat_inj, UInt8.toNat_ofNat_of_lt' (hlt ha), UInt8.toNat_ofNat_of_lt' (hlt hc)]
  exact Char.toNat_inj

theorem byte_lt {a : Char} (ha : a.toNat < 0x80) : byte a < 0x80 := by
  rw [byte, UInt8.lt_iff_toNat_lt, UInt8.toNat_ofNat_of_lt' (Nat.lt_trans ha (by decide))]
  exact ha

/-- A byte of a longer character is that of no ASCII character. -/
theorem ne_byte_of_le {a : Char} (ha : a.toNat < 0x80) {x : UInt8} (hge : 0x80 ≤ x) : x ≠ byte a := by
  rintro rfl
  exact absurd (UInt8.lt_of_lt_of_le (byte_lt ha) hge) (UInt8.lt_irrefl _)

/-- No byte of a text that lacks an ASCII character is the byte of that character. -/
theorem byte_notMem {a c : Char} (ha : a.toNat < 0x80) (hne : c ≠ a) : byte a ∉ String.utf8EncodeChar c := by
  rcases utf8EncodeChar_cases c with ⟨hc, henc⟩ | ⟨-, lead, rest, henc, hlead, hrest⟩
  · rw [henc, List.mem_singleton, byte_inj ha hc]
    exact Ne.symm hne
  · rw [henc]
    rintro hmem
    rcases List.mem_cons.1 hmem with hmem | hmem
    · exact ne_byte_of_le ha (UInt8.le_trans (by decide) hlead) hmem.symm
    · exact ne_byte_of_le ha (hrest _ hmem) rfl

section
variable {p y : Text} {a c : Char}

theorem getElem?_size (p y : Text) (i : Nat) : (utf8 (p ++ y))[size p + i]? = (utf8 y)[i]? := by
  rw [utf8_append, size, List.getElem?_append_right (by omega), Nat.add_sub_cancel_left]

/-- The byte behind a text is that of an ASCII character if the character is behind the text. -/
theorem getElem?_size_iff (ha : a.toNat < 0x80) : (utf8 (p ++ y))[size p]? = some (byte a) ↔ y.head? = some a := by
  have h := getElem?_size p y 0
  rw [Nat.add_zero] at h
  rw [h]
  cases y with
  | nil => simp [utf8]
  | cons c y =>
    rw [utf8_cons, List.head?_cons, Option.some_inj]
    by_cases hca : c = a
    · subst hca
      rcases utf8EncodeChar_cases c with ⟨-, henc⟩ | ⟨hge, -⟩
      · simp [henc]
      · omega
    · have hmem := byte_notMem ha hca
      simp only [hca, iff_false]
      obtain ⟨x, xs, hx⟩ := List.exists_cons_of_ne_nil (String.utf8EncodeChar_ne_nil : String.utf8EncodeChar c ≠ [])
      rw [hx] at hmem ⊢
      simp only [List.cons_append, List.getElem?_cons_zero, Option.some_inj]
      rintro rfl
      exact hmem List.mem_cons_self

/-- The bytes within a character are those of no mark. -/
theorem exists_of_inside {i : Nat} (hlo : size p < i) (hhi : i < size (p ++ [c])) :
    ∃ x, (utf8 (p ++ c :: y))[i]? = some x ∧ 0x80 ≤ x := by
  obtain ⟨k, rfl⟩ : ∃ k, i = size p + (k + 1) := ⟨i - size p - 1, by omega⟩
  rw [getElem?_size, utf8_cons]
  have hk : k + 1 < (String.utf8EncodeChar c).length := by
    rw [size_append] at hhi
    have : size [c] = (String.utf8EncodeChar c).length := by simp [size, utf8]
    omega
  rcases utf8EncodeChar_cases c with ⟨-, henc⟩ | ⟨-, lead, rest, henc, -, hrest⟩
  · simp [henc] at hk
  · rw [henc] at hk ⊢
    rw [List.getElem?_append_left hk, List.getElem?_cons_succ, List.getElem?_eq_getElem (by simpa using hk)]
    exact ⟨_, rfl, hrest _ (List.getElem_mem _)⟩

theorem isCharBoundary_size (p y : Text) : isCharBoundary (utf8 (p ++ y)) (size p) = true := by
  cases y with
  | nil => simp [isCharBoundary, size]
  | cons c y =>
    have h := getElem?_size p (c :: y) 0
    rw [Nat.add_zero, utf8_cons] at h
    unfold isCharBoundary
    rw [h]
    rcases utf8EncodeChar_cases c with ⟨hc, henc⟩ | ⟨-, lead, rest, henc, hlead, -⟩
    · simp [henc, byte_lt hc]
    · simp [henc, hlead]

/-- Between characters the bytes of a text can be cut. -/
theorem slice?_utf8 (p u y : Text) : slice? (utf8 (p ++ u ++ y)) (size p) (size (p ++ u)) = some (utf8 u) := by
  have hstart : isCharBoundary (utf8 (p ++ u ++ y)) (size p) = true := by
    rw [List.append_assoc]
    exact isCharBoundary_size p (u ++ y)
  unfold slice?
  rw [hstart, isCharBoundary_size (p ++ u) y, if_pos (by simp [size_append])]
  simp only [utf8_append, size, List.length_append]
  rw [List.take_append_of_le_length (by simp), List.take_of_length_le (by simp), List.drop_left]

/-- What makes no difference at the bytes within a character makes none over them. -/
theorem eq_behind {α : Type} {f : Nat → α} (h : ∀ i, size p < i → i < size (p ++ [c]) → f i = f (i + 1)) :
    f (size p + 1) = f (size (p ++ [c])) := by
  have hpos : 0 < size [c] := size_pos (by simp)
  have hsteps (k : Nat) (hk : size p + 1 + k ≤ size (p ++ [c])) : f (size p + 1) = f (size p + 1 + k) := by
    induction k with
    | zero => rfl
    | succ k ih => rw [ih (by omega), h _ (by omega) (by omega)]; rfl
  rw [hsteps (size (p ++ [c]) - (size p + 1)) (by rw [size_append]; omega)]
  congr 1
  rw [size_append]
  omega

end

/-! ## Marks -/

theorem firstMark?_append {a : UInt8} {mark : Bytes} {u : Bytes} (h : a ∉ u) (b : Bytes) :
    firstMark? (a :: mark) (u ++ b) = (firstMark? (a :: mark) b).map (· + u.length) := by
  induction u with
  | nil => simp
  | cons x u ih =>
    obtain ⟨hx, hu⟩ := not_or.1 (mt List.mem_cons.2 h)
    have hnot : (a :: mark).isPrefixOf (x :: (u ++ b)) = false := by simp [List.isPrefixOf, hx]
    rw [List.cons_append, firstMark?, hnot, if_neg Bool.false_ne_true, ih hu, Option.map_map]
    rfl

theorem byte_notMem_utf8 {a : Char} (ha : a.toNat < 0x80) {t : Text} (h : a ∉ t) : byte a ∉ utf8 t := by
  intro hmem
  obtain ⟨c, hc, hbyte⟩ := List.mem_flatMap.1 hmem
  exact byte_notMem ha (ne_of_mem_of_not_mem hc h) hbyte

/-- A line comment stops at the first byte that is a line end, or with the text. -/
theorem firstMark?_lineEnd (t : Text) (i : Nat) :
    ((firstMark? [byte '\n'] (utf8 t)).map (i + ·)).getD (i + size t) = i + size (lineEnd t).1 := by
  obtain ⟨hbody, hrest⟩ := lineEnd_spec t
  have ht : t = (lineEnd t).1 ++ (lineEnd t).2 := (append_lineEnd t).symm
  generalize (lineEnd t).1 = body at *
  generalize (lineEnd t).2 = rest at *
  subst ht
  rw [utf8_append, firstMark?_append (byte_notMem_utf8 (by decide) hbody)]
  obtain rfl | ⟨u, rfl⟩ := hrest
  · simp [utf8, firstMark?]
  · have hfound : firstMark? [byte '\n'] (utf8 (['\n'] ++ u)) = some 0 := rfl
    rw [hfound]
    simp [size]

/-- In front of the rest of a body no closing mark is found. -/
theorem firstMark?_body {body rest : Text} (hbody : ¬ ['*', '/'] <:+: body) (hrest : rest.head? ≠ some '/') :
    firstMark? [byte '*', byte '/'] (utf8 (body ++ rest)) =
      (firstMark? [byte '*', byte '/'] (utf8 rest)).map (· + size body) := by
  induction body with
  | nil => simp [size, utf8]
  | cons c body ih =>
    have ih := ih fun h => hbody (h.trans (List.suffix_cons c body).isInfix)
    rw [List.cons_append, utf8_cons]
    by_cases hc : c = '*'
    · subst hc
      have hnext : (body ++ rest).head? ≠ some '/' := by
        cases body with
        | nil => exact hrest
        | cons d body =>
          rintro hd
          obtain rfl : d = '/' := by simpa using hd
          exact hbody ⟨[], body, rfl⟩
      have hnot : [byte '*', byte '/'].isPrefixOf (byte '*' :: utf8 (body ++ rest)) = false := by
        have hhead := mt (getElem?_size_iff (p := []) (by decide)).1 hnext
        rw [List.nil_append, show size [] = 0 from rfl] at hhead
        cases hbytes : utf8 (body ++ rest) with
        | nil => rfl
        | cons x xs =>
          rw [hbytes, List.getElem?_cons_zero, Option.some_inj] at hhead
          simp [List.isPrefixOf, Ne.symm hhead]
      change firstMark? _ (byte '*' :: utf8 (body ++ rest)) = _
      rw [firstMark?, hnot, if_neg Bool.false_ne_true, ih, Option.map_map]
      refine Option.map_congr fun n _ => ?_
      rw [Function.comp_apply, show size ('*' :: body) = size body + 1 from rfl]
      omega
    · rw [firstMark?_append (byte_notMem (by decide) hc), ih, Option.map_map]
      refine Option.map_congr fun n _ => ?_
      rw [Function.comp_apply, show size (c :: body) = (String.utf8EncodeChar c).length + size body from
        List.length_append]
      omega

/-- A block comment stops behind the first bytes that are its closing mark, or with the text. -/
theorem firstMark?_blockEnd (t : Text) (i : Nat) :
    ((firstMark? [byte '*', byte '/'] (utf8 t)).map (i + · + 2)).getD (i + size t) = i + size (blockEnd t).1 := by
  obtain ⟨body, hbody, hend⟩ := blockEnd_spec t
  have ht := append_blockEnd t
  generalize (blockEnd t).1 = ended at *
  generalize (blockEnd t).2 = rest at *
  subst ht
  rcases hend with rfl | ⟨rfl, rfl⟩
  · rw [List.append_assoc, firstMark?_body hbody (by simp)]
    have hfound : firstMark? [byte '*', byte '/'] (utf8 (['*', '/'] ++ rest)) = some 0 := rfl
    rw [hfound, Option.map_some, Option.map_some, Option.getD_some, size_append body, show size ['*', '/'] = 2 from rfl]
    omega
  · rw [firstMark?_body hbody (by simp)]
    simp [utf8, firstMark?]

theorem literalStop_none {b : Bytes} {i : Nat} (h : b[i]? = none) (quote : UInt8) : literalStop b quote i = b.length := by
  rw [literalStop]
  split
  · rfl
  · rename_i heq
    rw [h] at heq
    cases heq

theorem literalStop_some {b : Bytes} {i : Nat} {x : UInt8} (h : b[i]? = some x) (quote : UInt8) :
    literalStop b quote i = if x = byte '\\' then literalStop b quote (i + 2) else if x = byte '\n' then i
      else if x = quote then i + 1 else literalStop b quote (i + 1) := by
  rw [literalStop]
  split
  · rename_i heq
    rw [h] at heq
    cases heq
  · rename_i heq
    rw [h] at heq
    cases heq
    rfl

section
variable {quote : Char}

theorem literalStop_inside (hquote : quote.toNat < 0x80) (p : Text) (c : Char) (t : Text) :
    literalStop (utf8 (p ++ c :: t)) (byte quote) (size p + 1) =
      literalStop (utf8 (p ++ c :: t)) (byte quote) (size (p ++ [c])) := by
  refine eq_behind fun i hlo hhi => ?_
  obtain ⟨x, hx, hge⟩ := exists_of_inside (y := t) hlo hhi
  rw [literalStop_some hx, if_neg (ne_byte_of_le (by decide) hge), if_neg (ne_byte_of_le (by decide) hge),
    if_neg (ne_byte_of_le hquote hge)]

theorem literalStop_cons (hquote : quote.toNat < 0x80) (p : Text) (c : Char) (t : Text) :
    literalStop (utf8 (p ++ c :: t)) (byte quote) (size p) =
      if c = '\\' then literalStop (utf8 (p ++ c :: t)) (byte quote) (size p + 2) else if c = '\n' then size p
      else if c = quote then size p + 1 else literalStop (utf8 (p ++ c :: t)) (byte quote) (size (p ++ [c])) := by
  obtain ⟨x, hx⟩ : ∃ x, (utf8 (p ++ c :: t))[size p]? = some x := by
    have hlt : size p < (utf8 (p ++ c :: t)).length := by
      change size p < size (p ++ c :: t)
      rw [size_append]
      have := size_pos (List.cons_ne_nil c t)
      omega
    exact ⟨_, List.getElem?_eq_getElem hlt⟩
  have hmark {a : Char} (ha : a.toNat < 0x80) : x = byte a ↔ c = a := by
    rw [← Option.some_inj, ← hx, getElem?_size_iff ha]
    simp
  rw [literalStop_some hx, literalStop_inside hquote]
  simp only [hmark (show '\\'.toNat < 0x80 by decide), hmark (show '\n'.toNat < 0x80 by decide), hmark hquote]

/-- **A literal stops behind its quote, before the end of its line, or with the text.** The bytes of a longer character
    that a backslash skips or does not skip are no marks. -/
theorem literalStop_utf8 (hquote : quote.toNat < 0x80) (p t : Text) :
    literalStop (utf8 (p ++ t)) (byte quote) (size p) = size (p ++ (literalEnd quote t).1) := by
  fun_induction literalEnd quote t generalizing p with
  | case1 =>
    rw [literalStop_none (by simp [size])]
    simp [size]
  | case2 =>
    have hsize : size (p ++ ['\\']) = size p + 1 := size_append p ['\\']
    have hend : (utf8 (p ++ ['\\']))[size p + 2]? = none :=
      List.getElem?_eq_none (show size (p ++ ['\\']) ≤ size p + 2 by omega)
    rw [literalStop_cons hquote, if_pos rfl, literalStop_none hend]
    rfl
  | case3 c t ih =>
    -- The backslash skips a byte, and the other bytes of the character are no marks.
    have hskip := literalStop_inside hquote (p ++ ['\\']) c t
    rw [List.append_assoc, size_append p] at hskip
    rw [literalStop_cons hquote, if_pos rfl]
    refine hskip.trans ?_
    simpa using ih (p ++ ['\\'] ++ [c])
  | case4 t =>
    rw [literalStop_cons hquote, if_neg (by decide), if_pos rfl, List.append_nil]
  | case5 t h1 h2 hn =>
    have hb := ne_backslash_of_not h1 h2
    rw [literalStop_cons hquote, if_neg hb, if_neg hn, if_pos rfl, size_append, size_ascii hquote]
  | case6 c t h1 h2 hn hc ih =>
    have hb := ne_backslash_of_not h1 h2
    rw [literalStop_cons hquote, if_neg hb, if_neg hn, if_neg hc]
    simpa using ih (p ++ [c])

end

/-! ## Segments -/

section
variable {p t : Text} {c : Char}

theorem length_utf8 (t : Text) : (utf8 t).length = size t := rfl

theorem slice?_rest (p t : Text) : slice? (utf8 (p ++ t)) (size p) (utf8 (p ++ t)).length = some (utf8 t) := by
  have h := slice?_utf8 p t []
  rwa [List.append_nil] at h

/-- A mark of one character stands at a position. -/
theorem mark_iff {a : Char} (ha : a.toNat < 0x80) : (utf8 (p ++ t))[size p]? = some (byte a) ↔ [a] <+: t := by
  rw [getElem?_size_iff ha]
  cases t <;> simp [List.cons_prefix_cons, eq_comm]

/-- A mark of two characters stands at a position. -/
theorem marks_iff {a a' : Char} (ha : a.toNat < 0x80) (ha' : a'.toNat < 0x80) :
    (utf8 (p ++ t))[size p]? = some (byte a) ∧ (utf8 (p ++ t))[size p + 1]? = some (byte a') ↔ [a, a'] <+: t := by
  rw [mark_iff ha]
  constructor
  · rintro ⟨⟨u, rfl⟩, hnext⟩
    rw [← size_ascii ha, ← size_append, ← List.append_assoc, mark_iff ha'] at hnext
    obtain ⟨v, rfl⟩ := hnext
    exact ⟨v, rfl⟩
  · rintro ⟨u, rfl⟩
    refine ⟨⟨a' :: u, rfl⟩, ?_⟩
    rw [← size_ascii ha, ← size_append, show [a, a'] ++ u = [a] ++ ([a'] ++ u) from rfl, ← List.append_assoc, mark_iff ha']
    exact ⟨u, rfl⟩

/-- **At a character the scan sees the lexeme that opens there**, and where it ends. -/
theorem openingAt?_utf8 (p t : Text) :
    openingAt? (utf8 (p ++ t)) (size p) = some ((lexeme? t).map fun e => (e.1.kind, size (p ++ e.1.text))) := by
  have hliteral {quote : Char} (hquote : quote.toNat < 0x80) (t : Text) :
      literalStop (utf8 (p ++ quote :: t)) (byte quote) (size p + 1) = size (p ++ quote :: (literalEnd quote t).1) := by
    rw [← size_ascii hquote, ← size_append, List.append_cons, literalStop_utf8 hquote, ← List.append_cons]
  have hslash : '/'.toNat < 0x80 := by decide
  unfold lexeme?
  split
  all_goals
    unfold openingAt?
    simp only [marks_iff hslash hslash, marks_iff hslash (show '*'.toNat < 0x80 by decide),
      mark_iff (show '"'.toNat < 0x80 by decide), mark_iff (show '\''.toNat < 0x80 by decide)]
  · rename_i t
    rw [if_pos ⟨t, rfl⟩, slice?_rest, Option.map_some, Option.map_some, length_utf8, size_append,
      firstMark?_lineEnd, ← size_append]
    rfl
  · rename_i t
    have hslice : slice? (utf8 (p ++ '/' :: '*' :: t)) (size p + 2) (utf8 (p ++ '/' :: '*' :: t)).length = some (utf8 t) := by
      simpa [size_append, show size ['/', '*'] = 2 from rfl] using slice?_rest (p ++ ['/', '*']) t
    have hstop := firstMark?_blockEnd t (size (p ++ ['/', '*']))
    rw [← size_append, ← size_append, size_append p, List.append_assoc, List.append_assoc] at hstop
    rw [if_neg (by simp), if_pos ⟨t, rfl⟩, hslice, Option.map_some, Option.map_some, length_utf8]
    exact congrArg (fun n => some (some (SegmentKind.blockComment, n))) hstop
  · rename_i t
    rw [if_neg (by simp), if_neg (by simp), if_pos ⟨t, rfl⟩, hliteral (by decide)]
    rfl
  · rename_i t
    rw [if_neg (by simp), if_neg (by simp), if_neg (by simp), if_pos ⟨t, rfl⟩, hliteral (by decide)]
    rfl
  · rename_i h1 h2 h3 h4
    rw [if_neg, if_neg, if_neg, if_neg]
    · rfl
    all_goals rintro ⟨u, rfl⟩
    · exact h4 u rfl
    · exact h3 u rfl
    · exact h2 u rfl
    · exact h1 u rfl

theorem openingAt?_inside {b : Bytes} {i : Nat} {x : UInt8} (h : b[i]? = some x) (hge : 0x80 ≤ x) :
    openingAt? b i = some none := by
  have hne {a : Char} (ha : a.toNat < 0x80) : ¬ b[i]? = some (byte a) := by
    rw [h]
    exact mt Option.some.inj (ne_byte_of_le ha hge)
  unfold openingAt?
  rw [if_neg fun h => hne (by decide) h.1, if_neg fun h => hne (by decide) h.1, if_neg (hne (by decide)),
    if_neg (hne (by decide))]

theorem scan_next {b : Bytes} {i : Nat} (hlt : i < b.length) (h : openingAt? b i = some none) (start : Nat) :
    scan b start i = scan b start (i + 1) := by
  rw [scan, if_pos hlt, h]

/-- Code is passed over, character by character. -/
theorem scan_code {x : Text} (hcode : CodeBefore x t) (p : Text) (start : Nat) :
    scan (utf8 (p ++ x ++ t)) start (size p) = scan (utf8 (p ++ x ++ t)) start (size (p ++ x)) := by
  induction x generalizing p with
  | nil => rw [List.append_nil]
  | cons c x ih =>
    have hlt : size (p ++ [c]) ≤ size (p ++ c :: x ++ t) := by
      simp only [size_append, List.append_assoc, show c :: x = [c] ++ x from rfl]
      omega
    have hpos : 0 < size [c] := size_pos (by simp)
    have hsize := size_append p [c]
    have hhere : openingAt? (utf8 (p ++ c :: x ++ t)) (size p) = some none := by
      have h := openingAt?_utf8 p (c :: (x ++ t))
      rw [hcode.1] at h
      rwa [List.append_assoc]
    rw [scan_next (show size p < size _ by omega) hhere]
    have hbehind : scan (utf8 (p ++ c :: x ++ t)) start (size p + 1) =
        scan (utf8 (p ++ c :: x ++ t)) start (size (p ++ [c])) := by
      refine eq_behind fun i hlo hhi => ?_
      obtain ⟨b, hb, hge⟩ := exists_of_inside (y := x ++ t) hlo hhi
      rw [← List.cons_append, ← List.append_assoc] at hb
      exact scan_next (show i < size _ by omega) (openingAt?_inside hb hge) start
    rw [hbehind]
    simpa using ih hcode.2 (p ++ [c])

/-- A segment in bytes. -/
def Segment.bytes (s : Segment) : SegmentKind × Bytes := (s.kind, utf8 s.text)

theorem codePiece_utf8 (p x t : Text) : codePiece (utf8 (p ++ x ++ t)) (size p) (size (p ++ x)) =
    some ((if x = [] then [] else [⟨.code, x⟩]).map Segment.bytes) := by
  unfold codePiece
  by_cases hx : x = []
  · subst hx
    rw [List.append_nil, if_neg (Nat.lt_irrefl _), if_pos rfl]
    rfl
  · have hpos := size_pos hx
    rw [if_pos (by rw [size_append]; omega), slice?_utf8, if_neg hx]
    rfl

/-- **The scan of the bytes finds the segments**, and never cuts the text in a character. -/
theorem scan_utf8 (p t : Text) :
    scan (utf8 (p ++ t)) (size p) (size p) = some ((segments t).map Segment.bytes) := by
  induction hlength : t.length using Nat.strongRecOn generalizing p t with
  | ind n ih =>
    subst hlength
    obtain ⟨x, y, rfl, hcode, hy, hsegments⟩ := exists_code_run t
    rw [← List.append_assoc, scan_code hcode, hsegments, List.map_append, scan]
    rcases hy with rfl | ⟨s, rest, hs⟩
    · rw [if_neg (by simp [size]), length_utf8, List.append_nil]
      have h := codePiece_utf8 p x []
      rw [List.append_nil] at h
      rw [h]
      simp [segments]
    · have hlt : size (p ++ x) < size (p ++ x ++ s.text) := by
        have := size_pos (lexeme?_ne_nil hs)
        rw [size_append (p ++ x)]
        omega
      have hle : size (p ++ x ++ s.text) ≤ size (p ++ x ++ s.text ++ rest) := by
        rw [size_append _ rest]
        omega
      have hshorter : rest.length < (x ++ y).length := by
        have := length_lexeme?_lt hs
        rw [List.length_append]
        omega
      have hopening := openingAt?_utf8 (p ++ x) y
      have hcode := codePiece_utf8 p x y
      rw [hs] at hopening
      obtain rfl := source_lexeme? hs
      rw [← List.append_assoc] at hopening hcode ⊢
      rw [if_pos (show size (p ++ x) < (utf8 (p ++ x ++ s.text ++ rest)).length from Nat.lt_of_lt_of_le hlt hle), hopening,
        segments_of_lexeme? hs]
      simp only [Option.map_some]
      rw [if_pos hlt, hcode, slice?_utf8, ih _ hshorter (p ++ x ++ s.text) rest rfl]
      rfl

end

/-- No two pieces of code lie next to each other. -/
def CodeApart : List Segment → Prop := List.IsChain fun s s' => ¬ (s.kind = .code ∧ s'.kind = .code)

theorem codeApart_of_parted {ss : List Segment} (h : Parted ss) : CodeApart ss := by
  induction h with
  | nil => exact .nil
  | code _ next _ ih => exact List.isChain_cons.2 ⟨fun s hs hcode => next s hs hcode.2, ih⟩
  | lexeme kind _ _ _ ih => exact List.isChain_cons.2 ⟨fun s _ hcode => kind hcode.1, ih⟩

theorem text_ne_nil_of_parted {ss : List Segment} (h : Parted ss) : ∀ s ∈ ss, s.text ≠ [] := by
  induction h with
  | nil => simp
  | code ne_nil _ _ ih => exact List.forall_mem_cons.2 ⟨ne_nil, ih⟩
  | lexeme _ opens _ _ ih =>
    refine List.forall_mem_cons.2 ⟨fun hnil => ?_, ih⟩
    obtain ⟨c, hc, -⟩ := opens
    rw [hnil] at hc
    cases hc

/-- **A text is split into segments in one way, and the scan of its bytes finds it**, without cutting the text in a
    character. No segment is empty, no two pieces of code lie next to each other, the segments spell the text, and
    leaving the code as it is leaves the text as it is. -/
theorem scan_agrees (t : Text) :
    (∀ ss, IsRow t ss ↔ ss = segments t) ∧
    scan (utf8 t) 0 0 = some ((segments t).map Segment.bytes) ∧
    (∀ s ∈ segments t, s.text ≠ []) ∧ CodeApart (segments t) ∧ source (segments t) = t ∧ mapCode id t = t :=
  ⟨fun _ => isRow_iff, scan_utf8 [] t, text_ne_nil_of_parted (parted_segments t),
    codeApart_of_parted (parted_segments t), source_segments t, mapCode_id t⟩

/-- A backslash in front of a longer character, an open comment, and a literal that the text ends in. -/
example : scan (utf8 (text "é'\\😀'/*/")) 0 0 = some
    [(.code, [0xC3, 0xA9]), (.literal, [0x27, 0x5C, 0xF0, 0x9F, 0x98, 0x80, 0x27]), (.blockComment, [0x2F, 0x2A, 0x2F])] := by
  cbv

end JavaMend.Java
