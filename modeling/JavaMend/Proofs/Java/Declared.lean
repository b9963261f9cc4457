import JavaMend.Java.Imports
import JavaMend.Proofs.Java.Modes

/-!
# `Proofs.Java.Declared` — the imports that a text declares

An import declaration stands on a line of its own in the code of a text, comments beside it apart. Line by line that is
`importsFrom`, which reads on from section to section of a text, and which blank lines between sections do not disturb:
they only end a literal that a backslash has carried on.

## Contents
- **Declarations.** `target?`, `declaredImports`, `ownPackage`.
- **Lines.** `importsFrom`; `declaredImports_eq`, `importsFrom_append`.
- **Sections.** `importsOf`, `spaced`; `importsOf_filter`, `importsFrom_spaced`.
-/

namespace JavaMend.Java

open JavaMend Text

/-! ## Declarations -/

/-- The target that a line imports, with single spaces between its words. -/
def target? (line : Text) : Option Text := (importTarget? line).map fun target => joinWith [' '] (words target)

/-- The targets of the import declarations in the code of a text. -/
def declaredImports (t : Text) : List Text := (splitOn '\n' (codeOnly t)).filterMap target?

/-- The package that the code of a text declares. -/
def ownPackage (t : Text) : Option Text := (splitOn '\n' (codeOnly t)).findSome? packageClause?

/-! ## Lines -/

/-- The targets of the import declarations in the code of lines that are read from a mode on. -/
def importsFrom (m : Mode) (ls : List Text) : List Text := (showLines m ls).filterMap target?

theorem declaredImports_eq (t : Text) : declaredImports t = importsFrom .code (splitOn '\n' t) := by
  rw [declaredImports, codeOnly_lines, importsFrom]

@[simp] theorem importsFrom_nil (m : Mode) : importsFrom m [] = [] := rfl

theorem importsFrom_cons (m : Mode) (l : Text) (ls : List Text) :
    importsFrom m (l :: ls) = (target? (showFrom m l)).toList ++ importsFrom (exit m l) ls := by
  cases h : target? (showFrom m l) <;> simp [importsFrom, showLines, h]

theorem importsFrom_append (m : Mode) (ls ks : List Text) :
    importsFrom m (ls ++ ks) = importsFrom m ls ++ importsFrom (exits m ls) ks := by
  induction ls generalizing m with
  | nil => simp
  | cons l ls ih => rw [List.cons_append, importsFrom_cons, importsFrom_cons, ih, List.append_assoc, exits_cons]

/-! ### Blank lines -/

theorem mem_of_mem_trim {c : Char} {t : Text} (h : c ∈ trim t) : c ∈ t := by
  have h1 : c ∈ (trimStart t).reverse := (List.dropWhile_sublist isBlank).subset (List.mem_reverse.1 h)
  exact (List.dropWhile_sublist isBlank).subset (List.mem_reverse.1 h1)

/-- A line without an `i` imports nothing. -/
theorem target?_eq_none {l : Text} (h : 'i' ∉ l) : target? l = none := by
  have hprefix : dropPrefix? (text "import ") (trim l) = none := by
    cases hd : dropPrefix? (text "import ") (trim l) with
    | none => rfl
    | some rest =>
      have hi : 'i' ∈ trim l := by
        rw [dropPrefix?_eq_some.1 hd]
        exact List.mem_append_left rest (by decide)
      exact absurd (mem_of_mem_trim hi) h
  simp [target?, importTarget?, hprefix]

theorem target?_showFrom_blank {m : Mode} {l : Text} (h : isBlankLine l = true) : target? (showFrom m l) = none := by
  refine target?_eq_none fun hi => ?_
  rcases mem_showFrom hi with hi | hi | hi
  · exact absurd (List.all_eq_true.1 h _ hi) (by decide)
  · exact absurd hi (by decide)
  · exact absurd hi (by decide)

/-- Blank lines import nothing. -/
theorem importsFrom_blanks {m : Mode} {ls : List Text} (h : ∀ l ∈ ls, isBlankLine l = true) : importsFrom m ls = [] := by
  induction ls generalizing m with
  | nil => rfl
  | cons l ls ih =>
    rw [importsFrom_cons, target?_showFrom_blank (h l List.mem_cons_self), ih fun k hk => h k (List.mem_cons_of_mem l hk)]
    rfl

/-- Blank lines leave no literal open. -/
theorem exit_exits_blanks {m : Mode} (hm : m.opensLine = true) {ls : List Text}
    (h : ∀ l ∈ ls, isBlankLine l = true) : exit (exits m ls) [] = exit m [] := by
  induction ls generalizing m with
  | nil => rfl
  | cons l ls ih =>
    have hl := h l List.mem_cons_self
    rw [exits_cons, ih (opensLine_exit m l) fun k hk => h k (List.mem_cons_of_mem l hk), exit_of_blank hm hl]
    exact exit_exit_nil hm

/-- The blank lines that are dropped at the end of lines. -/
theorem exists_blanks_dropBlankEnd (ls : List Text) :
    ∃ bs, ls = dropBlankEnd ls ++ bs ∧ ∀ l ∈ bs, isBlankLine l = true := by
  refine ⟨(ls.reverse.takeWhile isBlankLine).reverse, ?_, fun l hl => ?_⟩
  · rw [dropBlankEnd, ← List.reverse_append, List.takeWhile_append_dropWhile, List.reverse_reverse]
  · exact List.all_eq_true.1 List.all_takeWhile l (List.mem_reverse.1 hl)

theorem importsFrom_dropBlankEnd (m : Mode) (ls : List Text) : importsFrom m (dropBlankEnd ls) = importsFrom m ls := by
  obtain ⟨bs, hbs, hblank⟩ := exists_blanks_dropBlankEnd ls
  conv => rhs; rw [hbs]
  rw [importsFrom_append, importsFrom_blanks hblank, List.append_nil]

theorem exit_exits_dropBlankEnd {m : Mode} (hm : m.opensLine = true) (ls : List Text) :
    exit (exits m (dropBlankEnd ls)) [] = exit (exits m ls) [] := by
  obtain ⟨bs, hbs, hblank⟩ := exists_blanks_dropBlankEnd ls
  conv => rhs; rw [hbs]
  rw [exits_append, exit_exits_blanks (opensLine_exits hm _) hblank]

/-! ## Sections -/

/-- Nothing is carried over a line end. -/
def Mode.Settled (m : Mode) : Prop := exit m [] = m

theorem settled_exit {m : Mode} (hm : m.opensLine = true) : (exit m []).Settled := exit_exit_nil hm

theorem Mode.Settled.opensLine {m : Mode} (hm : m.Settled) : m.opensLine = true := by
  rw [← show exit m [] = m from hm]
  exact opensLine_exit m []

theorem exits_blanks {m : Mode} (hm : m.Settled) {ls : List Text} (h : ∀ l ∈ ls, isBlankLine l = true) :
    exits m ls = m := by
  induction ls with
  | nil => rfl
  | cons l ls ih =>
    rw [exits_cons, exit_of_blank hm.opensLine (h l List.mem_cons_self), show exit m [] = m from hm]
    exact ih fun k hk => h k (List.mem_cons_of_mem l hk)

/-- Where nothing is carried over, blank lines at the start are as good as none. -/
theorem importsFrom_dropWhile_blank {m : Mode} (hm : m.Settled) (ls : List Text) :
    importsFrom m (ls.dropWhile isBlankLine) = importsFrom m ls := by
  have hblank : ∀ l ∈ ls.takeWhile isBlankLine, isBlankLine l = true := List.all_eq_true.1 List.all_takeWhile
  conv => rhs; rw [← List.takeWhile_append_dropWhile (p := isBlankLine) (l := ls)]
  rw [importsFrom_append, importsFrom_blanks hblank, exits_blanks hm hblank, List.nil_append]

/-- The targets of the import declarations in sections with an empty line after each. -/
def importsOf : Mode → List (List Text) → List Text
  | _, []      => []
  | m, s :: ss => importsFrom m s ++ importsOf (exit (exits m s) []) ss

/-- Sections in a row with an empty line between neighbours. -/
def spaced : List (List Text) → List Text
  | []           => []
  | [s]          => s
  | s :: r :: rs => s ++ [] :: spaced (r :: rs)

/-- An empty section is as good as none. -/
theorem importsOf_filter {m : Mode} (hm : m.Settled) (ss : List (List Text)) :
    importsOf m (ss.filter fun s => !s.isEmpty) = importsOf m ss := by
  induction ss generalizing m with
  | nil => rfl
  | cons s ss ih =>
    cases s with
    | nil => simpa [importsOf, show exit m [] = m from hm] using ih hm
    | cons l ls => simp [importsOf, ih (settled_exit (opensLine_exits (opensLine_exit m l) ls))]

theorem importsFrom_spaced (m : Mode) (ss : List (List Text)) : importsFrom m (spaced ss) = importsOf m ss := by
  induction ss generalizing m with
  | nil => rfl
  | cons s ss ih =>
    cases ss with
    | nil => simp [spaced, importsOf]
    | cons r rs =>
      have hblank : target? (showFrom (exits m s) []) = none := target?_showFrom_blank rfl
      rw [spaced, importsFrom_append, importsFrom_cons, hblank, ih]
      rfl

end JavaMend.Java
