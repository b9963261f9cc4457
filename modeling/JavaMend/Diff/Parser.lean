import JavaMend.Diff.Basic
import JavaMend.Text.Lines
import JavaMend.Text.Numerals
import JavaMend.Text.Words

/-!
# `Diff.Parser` — reading unified diffs

A diff is a row of sections. A section opens with a line `--- old` followed by a line `+++ new`, which names the
target, and holds hunks; a hunk opens with a line that declares its ranges and is followed by as many body lines
as these say. Other lines between hunks mean nothing.

## Contents
- **Errors.** `Defect`, `ParseError`, `message`.
- **Paths.** `headerPath`, `stripPath`: the target that a header names.
- **Hunk headers.** `takeRanges?`, `hunkRanges`.
- **Hunk bodies.** `BodyLine`, `readBody`, `readHunk`; `length_readHunk_le` says that reading gets on.
- **Sections.** `sections`, `parseAll`, `parse`.
-/

namespace JavaMend.Diff

open JavaMend Text

/-! ## Errors -/

/-- What is wrong with a diff. -/
inductive Defect where
  /-- There is no section. -/
  | noSection
  /-- There are several sections where one is asked for. -/
  | severalSections (count : Nat)
  /-- A section has no hunk. -/
  | noHunks (target : Key)
  /-- The target path names nothing. -/
  | emptyTarget
  /-- A hunk precedes all sections. -/
  | strayHunk
  /-- A line that opens a hunk declares no ranges. -/
  | badHeader (header : Text)
  /-- A declared number fits no word of 64 bits. -/
  | rangeTooLarge
  /-- The body has other line counts than the header declares; `more` tells that another body line follows. -/
  | countMismatch (oldDeclared newDeclared oldSeen newSeen : Nat) (more : Bool)
deriving DecidableEq

/-- Why a diff is not read. -/
inductive ParseError where
  /-- A defect found at a line; line 0 stands for the diff as a whole. -/
  | malformed (line : Nat) (defect : Defect)
  /-- The section asks for its target to be deleted. -/
  | deletion (target : Text)
deriving DecidableEq

/-- The wording of a defect. -/
def Defect.message : Defect → Text
  | .noSection         => text "no target path header found"
  | .severalSections n => text "expected a single target, found " ++ ofNat n
  | .noHunks target    => text "no hunks for " ++ target.text
  | .emptyTarget       => text "empty target path"
  | .strayHunk         => text "hunk before target path header"
  | .badHeader header  => text "bad hunk header: " ++ header
  | .rangeTooLarge     => text "hunk range out of bounds"
  | .countMismatch oldDeclared newDeclared oldSeen newSeen more =>
    text "hunk declares -" ++ ofNat oldDeclared ++ text " +" ++ ofNat newDeclared
      ++ text " lines but contains -" ++ ofNat oldSeen ++ text " +" ++ ofNat newSeen
      ++ (if more then text " or more" else [])

/-- The wording of an error. -/
def ParseError.message : ParseError → Text
  | .malformed line defect => text "malformed patch at line " ++ ofNat line ++ text ": " ++ defect.message
  | .deletion target       => text "unsupported patch operation on " ++ target ++ text ": file deletion"

/-! ## Paths -/

/-- The path in the rest of a header line: up to a tab, without white space around it. -/
def headerPath (rest : Text) : Text := trimEnd ((trimStart rest).takeWhile (· != '\t'))

/-- Drop leading segments of a path, as long as there is a slash. -/
def dropSegments : Nat → Text → Text
  | 0,     path => path
  | n + 1, path =>
    match path.dropWhile (· != '/') with
    | []        => path
    | _ :: rest => dropSegments n rest

/-- The path that a header names once `strip` leading segments are dropped, before it is normalised. -/
def stripped (path : Text) (strip : Nat) : Text := dropSegments strip (path.map Key.slash)

/-- The normal form of the path that a header names once `strip` leading segments are dropped. -/
def stripPath (path : Text) (strip : Nat) : Text := Key.normalize (stripped path strip)

/-! ## Hunk headers -/

/-- A nonempty run of decimal digits of any script, and what follows it. -/
def takeDigits? (t : Text) : Option (Text × Text) :=
  let digits := t.takeWhile isSettledDigit
  if digits.isEmpty then none else some (digits, t.dropWhile isSettledDigit)

/-- The digits of one declared range: a start and, after a comma, a length. -/
def takeRange? (t : Text) : Option ((Text × Option Text) × Text) := do
  let (start, rest) ← takeDigits? t
  match rest with
  | ',' :: afterComma =>
    match takeDigits? afterComma with
    | some (len, rest') => return ((start, some len), rest')
    | none              => return ((start, none), rest)
  | _ => return ((start, none), rest)

/-- The digits of both ranges of a hunk header. -/
def takeRanges? (header : Text) : Option ((Text × Option Text) × (Text × Option Text)) := do
  let rest ← dropPrefix? (text "@@ -") header
  let (old, rest) ← takeRange? rest
  let rest ← dropPrefix? (text " +") rest
  let (new, rest) ← takeRange? rest
  let _ ← dropPrefix? (text " @@") rest
  return (old, new)

/-- The range that its digits declare; a length that is not given is 1. -/
def toRange? (digits : Text × Option Text) : Option Range := do
  let start ← readWord? 64 digits.1
  match digits.2 with
  | none     => return ⟨start, 1⟩
  | some len => return ⟨start, ← readWord? 64 len⟩

/-- The ranges that a hunk header declares. -/
def hunkRanges (header : Text) : Except Defect (Range × Range) :=
  match takeRanges? header with
  | none            => .error (.badHeader header)
  | some (old, new) =>
    match toRange? old, toRange? new with
    | some o, some n => .ok (o, n)
    | _,      _      => .error .rangeTooLarge

/-! ## Hunk bodies -/

/-- A line that can stand in a hunk body. -/
inductive BodyLine where
  | edit (line : HunkLine)
  /-- A remark such as a missing newline at the end; it belongs to no image. -/
  | remark
deriving DecidableEq

/-- The meaning of a line in a hunk body. An empty line is a context line that has lost its space. -/
def BodyLine.of? : Text → Option BodyLine
  | []        => some (.edit ⟨.context, []⟩)
  | ' ' :: t  => some (.edit ⟨.context, t⟩)
  | '-' :: t  => some (.edit ⟨.remove, t⟩)
  | '+' :: t  => some (.edit ⟨.add, t⟩)
  | '\\' :: _ => some .remark
  | _         => none

/-- Read body lines until both declared lengths are reached or a line cannot stand in a body. `old` and `new` count
    the lines seen so far. -/
def readBody (oldLength newLength : Nat) : Nat → Nat → List Text → List HunkLine × List Text
  | _,   _,   []      => ([], [])
  | old, new, l :: ls =>
    if old < oldLength ∨ new < newLength then
      match BodyLine.of? l with
      | none           => ([], l :: ls)
      -- A remark counts for neither length.
      | some .remark   => readBody oldLength newLength old new ls
      | some (.edit e) =>
        let (es, rest) :=
          readBody oldLength newLength (old + e.kind.oldCount) (new + e.kind.newCount) ls
        (e :: es, rest)
    else ([], l :: ls)

/-- The line opens a remark. -/
def isRemark (l : Text) : Bool := l.head? == some '\\'

/-- The two lines open a section; what follows their marks. -/
def sectionHeader? (l : Text) (ls : List Text) : Option (Text × Text) := do
  let old ← dropPrefix? (text "--- ") l
  let new ← dropPrefix? (text "+++ ") (← ls.head?)
  return (old, new)

/-- Another body line follows, which is no section header. -/
def overruns : List Text → Bool
  | []      => false
  | l :: ls =>
    (sectionHeader? l ls).isNone
      && (l.head? == some ' ' || l.head? == some '-' || l.head? == some '+')

/-- Read the hunk with the given header from the lines after it. -/
def readHunk (header : Text) (ls : List Text) : Except Defect (Hunk × List Text) := do
  let (old, new) ← hunkRanges header
  let (body, afterBody) := readBody old.length new.length 0 0 ls
  -- The remark about the last line comes after the lengths are reached.
  let rest := afterBody.dropWhile isRemark
  let hunk : Hunk := ⟨old, new, body⟩
  if hunk.before.length ≠ old.length ∨ hunk.after.length ≠ new.length ∨ overruns rest then
    throw (.countMismatch old.length new.length hunk.before.length hunk.after.length (overruns rest))
  return (hunk, rest)

theorem length_readBody_le (oldLength newLength old new : Nat) (ls : List Text) :
    (readBody oldLength newLength old new ls).2.length ≤ ls.length := by
  induction ls generalizing old new with
  | nil => simp [readBody]
  | cons l ls ih =>
    unfold readBody
    split
    · split
      · simp
      · exact Nat.le_succ_of_le (ih ..)
      · exact Nat.le_succ_of_le (ih ..)
    · simp

/-- What remains after a hunk is no longer than what followed its header. -/
theorem length_readHunk_le {header : Text} {ls rest : List Text} {hunk : Hunk}
    (h : readHunk header ls = .ok (hunk, rest)) : rest.length ≤ ls.length := by
  unfold readHunk at h
  cases hr : hunkRanges header with
  | error e => simp [hr, bind, Except.bind] at h
  | ok r =>
    simp only [hr, bind, Except.bind] at h
    split at h
    · simp [throw, throwThe, MonadExceptOf.throw] at h
    · simp only [pure, Except.pure, Except.ok.injEq, Prod.mk.injEq] at h
      rw [← h.2]
      exact Nat.le_trans (List.dropWhile_sublist _).length_le (length_readBody_le ..)

/-! ## Sections -/

/-- The target of a section from the paths in its header; `line` is the number of the header's first line. -/
def sectionTarget (strip line : Nat) (old new : Text) : Except ParseError Key :=
  if headerPath new = text "/dev/null" then .error (.deletion (stripPath (headerPath old) strip))
  else match Key.ofPath? (stripped (headerPath new) strip) with
    | some key => .ok key
    | none     => .error (.malformed (line + 1) .emptyTarget)

/-- Close the open section, if there is one; `line` is where its end is noticed. -/
def close (line : Nat) : Option Patch → Except ParseError (List Patch)
  | none       => .ok []
  | some patch => if patch.hunks.isEmpty then .error (.malformed line (.noHunks patch.target)) else .ok [patch]

/-- Read the sections from the lines of a diff of `total` lines, `current` being open. -/
def sections (strip total : Nat) (current : Option Patch) : List Text → Except ParseError (List Patch)
  | []      => close total current
  | l :: ls =>
    let line := total - ls.length
    match sectionHeader? l ls with
    | some (old, new) => do
      -- A section without hunks is noticed at the header of the next one.
      let closed ← close line current
      let target ← sectionTarget strip line old new
      let later ← sections strip total (some ⟨target, []⟩) ls.tail
      return closed ++ later
    | none =>
      if startsWith (text "@@") l then
        match current with
        | none       => .error (.malformed line .strayHunk)
        | some patch =>
          match _h : readHunk l ls with
          | .error defect     => .error (.malformed line defect)
          | .ok (hunk, rest) => sections strip total (some { patch with hunks := patch.hunks ++ [hunk] }) rest
      else sections strip total current ls
termination_by ls => ls.length
decreasing_by
  · simp only [List.length_cons, List.length_tail]; omega
  · have := length_readHunk_le _h
    simp only [List.length_cons]; omega
  · simp

/-- Read all sections of a diff, in order. -/
def parseAll (diff : Text) (strip : Nat) : Except ParseError (List Patch) := do
  let ls := lines diff
  let patches ← sections strip ls.length none ls
  if patches.isEmpty then throw (.malformed 0 .noSection)
  return patches

/-- Read a diff of exactly one section. -/
def parse (diff : Text) (strip : Nat) : Except ParseError Patch := do
  match ← parseAll diff strip with
  | [patch] => return patch
  | []      => throw (.malformed 0 .noSection)
  | patches => throw (.malformed 0 (.severalSections patches.length))

end JavaMend.Diff
