import JavaMend.Text.Lines
import JavaMend.Text.Words

/-!
# `Java.Labels` — blank lines around switch labels

No blank line stands after a line that opens with a `case` or `default` label, nor before one.

## Contents
- `isLabel`: the line opens with a label.
- `spaceLines`: the rule on lines; `tightenLabels`: the rule on texts.
-/

namespace JavaMend.Java

open JavaMend Text

/-- The word stands at the start and does not go on as an identifier. -/
def opensWith (word line : Text) : Bool :=
  match dropPrefix? word line with
  | some (c :: _) => !isIdentChar c
  | _             => false

/-- The line opens with a `case` or `default` label. -/
def isLabel (line : Text) : Bool :=
  opensWith (text "case") (trimStart line) || opensWith (text "default") (trimStart line)

/-- Drop the runs of blank lines that touch a label line. `afterLabel` tells whether the line before is one, and
    `blanks` are the blank lines since then. -/
def spaceLines (afterLabel : Bool) (blanks : List Text) : List Text → List Text
  | []      => if afterLabel then [] else blanks
  | l :: ls =>
    if isBlankLine l then spaceLines afterLabel (blanks ++ [l]) ls
    else
      let kept := if afterLabel || isLabel l then [] else blanks
      kept ++ l :: spaceLines (isLabel l) [] ls

/-- Drop blank lines directly after a label line and directly before one. -/
def tightenLabels (t : Text) : Text := unlines (spaceLines false [] (lines t)) (endsWithNewline t)

/-- A blank line is no label. -/
theorem spaceLines_blank {afterLabel : Bool} {blanks ls : List Text} {l : Text} (h : isBlankLine l = true) :
    spaceLines afterLabel blanks (l :: ls) = spaceLines afterLabel (blanks ++ [l]) ls := by
  rw [spaceLines, if_pos h]

end JavaMend.Java
