import JavaMend.Formatter
import JavaMend.Java.Builtin
import JavaMend.Java.Comments
import JavaMend.Java.Fixup
import JavaMend.Java.Labels
import JavaMend.Java.Tidy
import JavaMend.Store

/-!
# `Normalizer` — normal texts and normal stores

A text is normalised by edits that run one after another; the formatter runs before the spacing of labels and the
renaming of classes. A store is normalised, and fixed up, source by source.

## Contents
- **Texts.** `Normalizer`, `normalize`; `normalize_ofFunction`, `normalize_keep`.
- **Stores.** `Summary`, `Attempt`, `normalizeStore`, `fixupStore`.
-/

namespace JavaMend

open Text Java

/-! ## Texts -/

/-- The tables and the formatter of a normalisation. -/
structure Normalizer where
  constants : ConstantTable
  renames : RenameTable
  formatter : Formatter

namespace Normalizer

/-- What is done to a text before it is formatted. -/
def prepare (n : Normalizer) (t : Text) : Text :=
  nameConstants n.constants (tidy (fixImports (stripSynthetic (toLF t))))

/-- What is done to a formatted text. -/
def finish (n : Normalizer) (t : Text) : Text := renameClasses n.renames (tightenLabels t)

/-- Normalise a text. -/
def normalize (n : Normalizer) (t : Text) : Action FormatError Text := do
  return n.finish (← n.formatter (n.prepare t))

/-- With a function as its formatter, normalising fails where that does and leaves the disk as it is. -/
theorem normalize_ofFunction (n : Normalizer) {f : Text → Except FormatError Text}
    (h : n.formatter = Formatter.ofFunction f) (t : Text) (d : Disk) :
    (n.normalize t).on d = ((f (n.prepare t)).map n.finish, d) := by
  unfold normalize
  rw [h]
  unfold Formatter.ofFunction
  cases f (n.prepare t) <;> rfl

/-- Without a formatter, normalising is preparing and finishing. -/
theorem normalize_keep (n : Normalizer) (h : n.formatter = Formatter.keep) (t : Text) (d : Disk) :
    (n.normalize t).on d = (.ok (n.finish (n.prepare t)), d) :=
  n.normalize_ofFunction h t d

/-! ## Stores -/

/-- What became of the sources of a store. -/
structure Summary where
  /-- How many there are. -/
  files : Nat
  /-- How many have another text than before. -/
  changed : Nat
  /-- Those that the formatter failed on, in key order. -/
  failures : List (Key × FormatError)

/-- The wording of a failure. -/
def failureMessage (failure : Key × FormatError) : Text :=
  text "formatter failed for " ++ failure.1.text ++ text ": " ++ failure.2.message

/-- What came of normalising a source. -/
structure Attempt where
  key : Key
  before : Text
  result : Except FormatError Text

/-- The text after an attempt: the normal one, or that from before if the formatter failed. -/
def Attempt.text (a : Attempt) : Text :=
  match a.result with
  | .ok normal => normal
  | .error _   => a.before

/-- Normalise sources one after another. -/
def attempt (n : Normalizer) : List (Key × Text) → StateM Disk (List Attempt)
  | []             => return []
  | (key, t) :: ss => do
    let a : Attempt := ⟨key, t, ← (n.normalize t).run⟩
    return a :: (← n.attempt ss)

/-- What became of the sources that were attempted. -/
def summarize (attempts : List Attempt) : Summary where
  files := attempts.length
  changed := attempts.countP fun a => a.text != a.before
  failures := attempts.filterMap fun a =>
    match a.result with
    | .ok _      => none
    | .error why => some (a.key, why)

/-- Normalise every source of a store; where the formatter fails the text stays. -/
def normalizeStore (n : Normalizer) (s : Store) : StateM Disk (Store × Summary) := do
  let attempts ← n.attempt s.sources
  let after (key : Key) (t : Text) : Text := ((attempts.find? fun a => a.key == key).map (·.text)).getD t
  return (s.mapSources after, summarize attempts)

end Normalizer

/-- Fix up every source of a store; also how many have another text than before. -/
def fixupStore (o : FixupOptions) (s : Store) : Store × Nat :=
  (s.mapSources fun key t => fixup o key.fileName t,
    s.sources.countP fun (key, t) => fixup o key.fileName t != t)

end JavaMend
