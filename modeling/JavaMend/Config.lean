import JavaMend.Diff.Anchor
import JavaMend.Java.Builtin
import JavaMend.Java.Fixup
import JavaMend.Toml.Document

/-!
# `Config` — settings

Settings are read from a document in which every field is optional and no unknown field is allowed. A group of
settings may also be given as a list, its items standing for the fields in their order.

## Contents
- **Settings.** `PatchSettings`, `DecompilerSettings`, `FormatterSettings`, `Config`.
- **Decoding.** `Decoder` and its instances for numbers, texts, lists; `record`.
- **Reading.** `ConfigError`, `Config.check`, `Config.parse`.
-/

namespace JavaMend

open Text Java Toml

/-! ## Settings -/

/-- How patches are read and applied. -/
structure PatchSettings where
  /-- Leading segments dropped from the paths in headers. -/
  strip : Nat
  maxFuzz : Nat
  maxOffset : Nat
  lenient : Bool
deriving DecidableEq, Repr

/-- How the decompiler is run. -/
structure DecompilerSettings where
  java : Text
  maxHeap : Text
  /-- Arguments after the fixed ones. -/
  extraArgs : List Text
deriving DecidableEq, Repr

/-- How texts are formatted. -/
structure FormatterSettings where
  /-- The program; without one texts are kept. -/
  program : Option Text
  args : List Text
  timeoutSecs : Nat
deriving DecidableEq, Repr

/-- All settings. Tables that are not given are the built-in ones. -/
structure Config where
  patch : PatchSettings
  decompiler : DecompilerSettings
  formatter : FormatterSettings
  fixup : FixupOptions
  constants : Option ConstantTable
  renames : Option RenameTable

/-- The settings in effect when none are given. -/
def PatchSettings.standard : PatchSettings := ⟨1, 2, 50, false⟩

/-- The settings in effect when none are given. -/
def DecompilerSettings.standard : DecompilerSettings := ⟨text "java", text "512M", []⟩

/-- The settings in effect when none are given. -/
def FormatterSettings.standard : FormatterSettings := ⟨none, [], 60⟩

/-- The settings in effect when none are given. -/
def Config.standard : Config := ⟨.standard, .standard, .standard, ⟨true⟩, none, none⟩

/-- The options with which patches are applied. -/
def PatchSettings.options (s : PatchSettings) : Diff.Options := ⟨.ofRank s.maxFuzz, s.maxOffset, s.lenient⟩

/-- The constants in effect. -/
def Config.constantTable (c : Config) : ConstantTable := c.constants.getD builtinConstants

/-- The renames in effect. -/
def Config.renameTable (c : Config) : RenameTable := c.renames.getD builtinRenames

/-! ## Decoding -/

/-- A decoder takes a value of the right type out of a configuration value. -/
abbrev Decoder (α : Type) := Value → Option α

namespace Decoder

/-- A text. -/
def string : Decoder Text
  | .string t => some t
  | _         => none

/-- A truth value. -/
def boolean : Decoder Bool
  | .boolean b => some b
  | _          => none

/-- A whole number. -/
def integer : Decoder Int
  | .integer n => some n
  | _          => none

/-- A natural number below a bound. -/
def natural (bound : Nat) : Decoder Nat
  | .integer (.ofNat n) => if n < bound then some n else none
  | _                   => none

/-- A list. -/
def list {α : Type} (item : Decoder α) : Decoder (List α)
  | .array _ items => items.mapM item
  | _              => none

/-- The fields of a group of settings, by name; a list gives them in the order of the names. -/
def record (names : List Text) : Value → Option (Text → Option Value)
  | .table _ fields =>
    if fields.all fun f => names.contains f.1 then some (Fields.get? fields) else none
  | .array _ items  => some fun name => (names.zip items).lookup name
  | _               => none

/-- A field that may be missing. -/
def optional {α : Type} (value : Option Value) (item : Decoder α) (missing : α) : Option α :=
  match value with
  | none   => some missing
  | some v => item v

/-- A word of 64 bits. -/
def word : Decoder Nat := natural (Nat.pow 2 64)

/-- The settings of patches. -/
def patchSettings : Decoder PatchSettings := fun v => do
  let field ← record [text "strip", text "max_fuzz", text "max_offset", text "lenient"] v
  let std := PatchSettings.standard
  return {
    strip := ← optional (field (text "strip")) word std.strip
    maxFuzz := ← optional (field (text "max_fuzz")) (natural 256) std.maxFuzz
    maxOffset := ← optional (field (text "max_offset")) word std.maxOffset
    lenient := ← optional (field (text "lenient")) boolean std.lenient }

/-- The settings of the decompiler. -/
def decompilerSettings : Decoder DecompilerSettings := fun v => do
  let field ← record [text "java", text "max_heap", text "extra_args"] v
  let std := DecompilerSettings.standard
  return {
    java := ← optional (field (text "java")) string std.java
    maxHeap := ← optional (field (text "max_heap")) string std.maxHeap
    extraArgs := ← optional (field (text "extra_args")) (list string) std.extraArgs }

/-- The settings of the formatter. -/
def formatterSettings : Decoder FormatterSettings := fun v => do
  let field ← record [text "program", text "args", text "timeout_secs"] v
  let std := FormatterSettings.standard
  return {
    program := ← optional (field (text "program")) (fun v => (string v).map some) none
    args := ← optional (field (text "args")) (list string) std.args
    timeoutSecs := ← optional (field (text "timeout_secs")) word std.timeoutSecs }

/-- The settings of the fix-up. -/
def fixupOptions : Decoder FixupOptions := fun v => do
  let field ← record [text "fix_interfaces"] v
  return ⟨← optional (field (text "fix_interfaces")) boolean true⟩

/-- A value of a constant group with its name; items after these two mean nothing. -/
def constantPair : Decoder (Int × Text)
  | .array _ (value :: name :: _) => do return (← integer value, ← string name)
  | _                             => none

/-- A group of constants; its calls and its values must be given. -/
def constantGroup : Decoder ConstantGroup := fun v => do
  let field ← record [text "calls", text "import", text "values"] v
  let calls ← list string (← field (text "calls"))
  let importing ← optional (field (text "import")) (fun v => (string v).map some) none
  return .ofPairs calls importing (← list constantPair (← field (text "values")))

/-- A table of renames. A moment counts as a table whose one field holds its text. -/
def renameTable : Decoder RenameTable
  | .moment m       => some (RenameTable.ofPairs [(text "$__toml_private_datetime", m.written)])
  | .table _ fields => do
    return RenameTable.ofPairs (← fields.mapM fun f => do return (f.1, ← string f.2))
  | _               => none

/-- The tables, if they are given. -/
def tables : Decoder (Option ConstantTable × Option RenameTable) := fun v => do
  let field ← record [text "constants", text "renames"] v
  return (← optional (field (text "constants")) (fun v => (list constantGroup v).map some) none,
    ← optional (field (text "renames")) (fun v => (renameTable v).map some) none)

/-- All settings. -/
def config : Decoder Config := fun v => do
  let field ← record
    [text "patch", text "decompiler", text "formatter", text "fixup", text "tables"] v
  let (constants, renames) ← optional (field (text "tables")) tables (none, none)
  return {
    patch := ← optional (field (text "patch")) patchSettings .standard
    decompiler := ← optional (field (text "decompiler")) decompilerSettings .standard
    formatter := ← optional (field (text "formatter")) formatterSettings .standard
    fixup := ← optional (field (text "fixup")) fixupOptions ⟨true⟩
    constants := constants
    renames := renames }

end Decoder

/-! ## Reading -/

/-- Why settings are refused. -/
inductive ConfigError where
  /-- The text is no document of settings. -/
  | malformed
  /-- There is no such fuzz level. -/
  | maxFuzz (given : Nat)
  /-- The formatter would have no time. -/
  | noTimeout
  | renames (fault : RenameError)
deriving DecidableEq

/-- The wording of a refusal. -/
def ConfigError.message : ConfigError → Text
  | .malformed     => text "malformed settings"
  | .maxFuzz given => text "patch.max_fuzz must be at most 2, got " ++ ofNat given
  | .noTimeout     => text "formatter.timeout_secs must be positive"
  | .renames fault => fault.message

namespace Config

/-- Accept settings that make sense. -/
def check (c : Config) : Except ConfigError Config :=
  if 2 < c.patch.maxFuzz then .error (.maxFuzz c.patch.maxFuzz)
  else if c.formatter.timeoutSecs = 0 then .error .noTimeout
  else match c.renames.bind RenameTable.fault? with
    | some fault => .error (.renames fault)
    | none       => .ok c

/-- Read settings. -/
def parse (t : Text) : Except ConfigError Config :=
  match (Toml.parse? t).bind fun fields => Decoder.config (.table .header fields) with
  | none   => .error .malformed
  | some c => c.check

end Config
end JavaMend
