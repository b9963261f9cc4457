import JavaMend.Diff.Report
import JavaMend.Store

/-!
# `Diff.Engine` — applying patches

The hunks of a patch are applied in order to the lines of the target. Each is expected at the line it declares, moved
by what the hunks before it have added and removed, and the rest of the document is left alone. A hunk that is not
found leaves the document as it is.

## Contents
- **Places.** `declared`, `expectedAt`, `splice`; `signedWord_of_lt`.
- **Documents.** `applyHunk`, `applyHunks`; `length_applyHunks` says that every hunk has an outcome.
- **Targets.** `Document`, `targetOf`, `probe`.
- **Stores.** `Report.keep`, `attempt`, `apply`, `applyAll`.
-/

namespace JavaMend.Diff

open JavaMend Text

/-! ## Places -/

/-- The signed value of a word of 64 bits. -/
def signedWord (n : Nat) : Int := if n < Nat.pow 2 63 then n else n - Nat.pow 2 64

/-- The number of lines before a hunk, as its header declares it. An empty before image names the line after which
    to insert. -/
def declared (h : Hunk) : Nat := if h.old.length = 0 then h.old.start else h.old.start - 1

/-- The number of lines before a hunk in a document of `length` lines that has grown by `delta`. The declared number is
    a word, and the sum is taken of its signed value. -/
def expectedAt (h : Hunk) (delta : Int) (length : Nat) : Nat :=
  min (signedWord (declared h) + delta).toNat length

/-- Replace `count` lines after `pos` lines. -/
def splice (doc : List Text) (pos count : Nat) (new : List Text) : List Text :=
  doc.take pos ++ new ++ doc.drop (pos + count)

/-- Below `2 ^ 63` the signed value is the value. -/
theorem signedWord_of_lt {n : Nat} (h : n < Nat.pow 2 63) : signedWord n = n :=
  if_pos h

theorem expectedAt_le (h : Hunk) (delta : Int) (length : Nat) : expectedAt h delta length ≤ length := by
  exact Nat.min_le_right _ _

/-! ## Documents -/

/-- The distance in which a hunk is looked for. -/
def Options.window (o : Options) : Nat := if o.maxLevel = .exact then 0 else o.maxOffset

/-- A document on its way through the hunks of a patch, and by how much it has grown. -/
structure Progress where
  doc : List Text
  delta : Int
deriving DecidableEq

/-- Apply one hunk. -/
def applyHunk (o : Options) (h : Hunk) (st : Progress) : Outcome × Progress :=
  let expected := expectedAt h st.delta st.doc.length
  match locate o st.doc h.before expected with
  | some anchor =>
    (.applied anchor,
      ⟨splice st.doc anchor.pos h.before.length h.after, st.delta + h.after.length - h.before.length⟩)
  | none => (.notFound o.maxLevel o.window expected, st)

/-- Apply hunks in order; their outcomes and what they lead to. -/
def applyHunks (o : Options) : List Hunk → Progress → List Outcome × Progress
  | [],      st => ([], st)
  | h :: hs, st =>
    let step := applyHunk o h st
    let rest := applyHunks o hs step.2
    (step.1 :: rest.1, rest.2)

/-- Every hunk has an outcome. -/
theorem length_applyHunks (o : Options) (hs : List Hunk) (st : Progress) :
    (applyHunks o hs st).1.length = hs.length := by
  induction hs generalizing st with
  | nil => rfl
  | cons h hs ih => simp [applyHunks, ih]

/-! ## Targets -/

/-- The document that a patch is applied to: its lines, and whether the last one is terminated. An empty text
    counts as terminated. -/
structure Document where
  lines : List Text
  terminated : Bool
deriving DecidableEq

/-- The document of a text. -/
def Document.ofText (t : Text) : Document := ⟨Text.lines t, t.isEmpty || endsWithNewline t⟩

/-- The text of a document. -/
def Document.toText (d : Document) : Text := unlines d.lines d.terminated

/-- The document that a patch finds in a store. -/
def targetOf (p : Patch) (s : Store) : Except Refusal Document :=
  match s.find? p.target with
  | some ⟨_, .source t⟩   => .ok (.ofText t)
  | some ⟨_, .resource _⟩ => .error .notSource
  | none                  => if p.createsFile then .ok ⟨[], true⟩ else .error .missing

/-- Try a patch: its report, and the text that results if at least one hunk applies. -/
def probe (o : Options) (p : Patch) (s : Store) : Report × Option Text :=
  match targetOf p s with
  | .error refusal => (⟨p.target, p.hunks.map fun _ => .refused refusal, some refusal⟩, none)
  | .ok doc =>
    let run := applyHunks o p.hunks ⟨doc.lines, 0⟩
    -- A patch of which nothing applies leaves no text, not even an equal one.
    let changed := run.1.any fun outcome => outcome.line?.isSome
    (⟨p.target, run.1, none⟩,
      if changed then some (Document.toText ⟨run.2.doc, doc.terminated⟩) else none)

/-! ## Stores -/

/-- Keep the text that results from a patch. If the store does not take it, the patch fails and the store stays as it
    is. -/
def Report.keep (report : Report) (result : Text) (s : Store) : Report × Store :=
  match s.upsertSource report.target.text result with
  | .ok s'       => (report, s')
  | .error error => ({ report with refusal := some (.notKept error) }, s)

/-- Try a patch. Unless this is a trial, keep the text that results, if a hunk applied and either none failed or the
    options are lenient. -/
def attempt (o : Options) (trial : Bool) (p : Patch) (s : Store) : Report × Store :=
  let (report, result?) := probe o p s
  if trial then (report, s)
  else match result? with
    | some result => if report.status != .failed || o.lenient then report.keep result s else (report, s)
    | none        => (report, s)

/-- Apply a patch. -/
def apply (o : Options) (p : Patch) (s : Store) : Report × Store := attempt o false p s

/-- Apply patches one after another, each to what the ones before it left. -/
def applyAll (o : Options) : List Patch → Store → List Report × Store
  | [],      s => ([], s)
  | p :: ps, s =>
    let first := apply o p s
    let rest := applyAll o ps first.2
    (first.1 :: rest.1, rest.2)

end JavaMend.Diff
