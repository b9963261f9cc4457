/-!
# `Text.Blank` — white space

The characters that count as white space when a line is trimmed, when an import is read and when a
declaration is recognised: the Unicode property `White_Space`.

## Contents
- `isBlank`: the property.
- `isBlank_space`, `isBlank_newline`, `not_isBlank_zeroWidth`: the members that other modules rely on.
-/

namespace JavaMend.Text

/-- White space: the Unicode property `White_Space`. -/
def isBlank (c : Char) : Bool :=
  let n := c.toNat
  (0x9 ≤ n && n ≤ 0xD) || n == 0x20 || n == 0x85 || n == 0xA0 || n == 0x1680
    || (0x2000 ≤ n && n ≤ 0x200A) || n == 0x2028 || n == 0x2029 || n == 0x202F || n == 0x205F
    || n == 0x3000

theorem isBlank_space : isBlank ' ' = true := by decide

theorem isBlank_newline : isBlank '\n' = true ∧ isBlank '\r' = true ∧ isBlank '\t' = true := by decide

/-- The zero width space and the byte order mark are not white space. -/
theorem not_isBlank_zeroWidth : isBlank '\u200b' = false ∧ isBlank '\ufeff' = false := by decide

/-- White space in the narrow sense of `Char` is white space here. -/
theorem isBlank_of_isWhitespace {c : Char} (h : c.isWhitespace = true) : isBlank c = true := by
  simp only [Char.isWhitespace, Bool.or_eq_true, decide_eq_true_eq] at h
  rcases h with ((rfl | rfl) | rfl) | rfl <;> decide

end JavaMend.Text
