import JavaMend.Java.Segments

/-!
# `Java.Comments` — comments that a decompiler left

A decompiler writes remarks about its own work into comments. Such a comment is known by a marker in it, and goes;
a line that holds nothing else goes with it.

## Contents
- `markers`, `isSynthetic`.
- `withoutSynthetic`: the text without these comments, and the numbers of the lines they stood on.
- `stripSynthetic`; `stripSynthetic_of_none` says that a text without such comments is kept.
-/

namespace JavaMend.Java

open JavaMend Text

/-- What tells a decompiler's comment. -/
def markers : List Text := [text "$FF:", text "$VF:", text "$QF:"]

/-- The comment holds a marker. -/
def isSynthetic (s : Segment) : Bool := s.isComment && markers.any fun m => contains m s.text

/-- The text of segments without the synthetic comments, and the numbers, counted from `line`, of the lines on which
    they stood. -/
def withoutSynthetic (line : Nat) : List Segment → Text × List Nat
  | []      => ([], [])
  | s :: ss =>
    if isSynthetic s then
      -- What goes takes its own ends of line with it, so they are not counted.
      let rest := withoutSynthetic line ss
      (rest.1, line :: rest.2)
    else
      let rest := withoutSynthetic (line + s.text.count '\n') ss
      (s.text ++ rest.1, rest.2)

/-- Lines as they stay: of those that lost a comment, blank ones go and the others lose the white space at their
    end. -/
def keptLines (touched : List Nat) (ls : List Text) : List Text :=
  ls.zipIdx.filterMap fun (l, i) =>
    if touched.contains i then
      if isBlankLine l then none else some (trimEnd l)
    else some l

/-- Remove the synthetic comments of a text. -/
def stripSynthetic (t : Text) : Text :=
  let stripped := withoutSynthetic 0 (segments t)
  if stripped.2.isEmpty then t
  else
    let kept := joinWith ['\n'] (keptLines stripped.2 (splitOn '\n' stripped.1))
    if stripped.1.getLast? == some '\n' && !(kept.getLast? == some '\n') && !kept.isEmpty then kept ++ ['\n']
    else kept

theorem withoutSynthetic_snd_eq_nil {line : Nat} {ss : List Segment}
    (h : ∀ s ∈ ss, isSynthetic s = false) : (withoutSynthetic line ss).2 = [] := by
  induction ss generalizing line with
  | nil => rfl
  | cons s ss ih =>
    simp [withoutSynthetic, h s (by simp), ih fun x hx => h x (by simp [hx])]

/-- A text without synthetic comments is kept. -/
theorem stripSynthetic_of_none {t : Text} (h : ∀ s ∈ segments t, isSynthetic s = false) :
    stripSynthetic t = t := by
  simp [stripSynthetic, withoutSynthetic_snd_eq_nil h]

end JavaMend.Java
