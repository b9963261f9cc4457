import JavaMend.Text.Numerals

/-!
# `CommandLine.Arguments` — what a command line asks for

A command line names a command and gives options to it. Options with a value take it from the next argument or after
an equals sign; an argument that starts with a dash is never a value, except a dash alone. No option may be given
twice. Arguments are taken in order, so that what is wrong counts before a description that is asked for later, and the
other way round. Some options are common to all commands and may also stand before the command.

## Contents
- **Options.** `ValueKind`, `OptionSpec`, `Given`, `takeOption?`, `takeOptions`; `length_takeOption?_le` makes it end.
- **Invocations.** `PatchOverrides`, `Invocation`, `Globals`, `Request`.
- **Commands.** `commandSpecs`, `usageLines`, `invocation?`, `describe`, `parseCommand`, `parse`.
-/

namespace JavaMend.CommandLine

open JavaMend Text

/-! ## Options -/

/-- What an option takes as its value. -/
inductive ValueKind where
  | nothing
  /-- A text that is not empty. -/
  | path
  /-- A number of 64 bits. -/
  | word
  /-- A number below 256. -/
  | byte
deriving DecidableEq, Repr

/-- A number below 256 that may have a sign. -/
def readByte? (t : Text) : Option Nat :=
  match readInt? t with
  | some (.ofNat n) => if n < 256 then some n else none
  | _               => none

/-- The text is such a value. -/
def ValueKind.accepts : ValueKind → Text → Bool
  | nothing, t => t.isEmpty
  | path,    t => !t.isEmpty
  | word,    t => (readWord? 64 t).isSome
  | byte,    t => (readByte? t).isSome

/-- An option that a command understands. -/
structure OptionSpec where
  name : Text
  /-- A single letter that stands for the name. -/
  letter : Option Char
  kind : ValueKind
deriving DecidableEq, Repr

/-- An option with a path. -/
def valued (name : String) : OptionSpec := ⟨text name, none, .path⟩

/-- An option without value. -/
def flag (name : String) : OptionSpec := ⟨text name, none, .nothing⟩

/-- The option for the output, which also has a letter. -/
def outputSpec : OptionSpec := ⟨text "output", some 'o', .path⟩

/-- Options that were given, by name. -/
abbrev Given := List (Text × Text)

/-- An argument that opens an option; a dash alone does not. -/
def opensOption (arg : Text) : Bool := arg.head? == some '-' && arg != ['-']

/-- An argument that asks for a description. -/
def asksHelp (arg : Text) : Bool := arg == text "--help" || startsWith (text "-h") arg

/-- An argument that gives an option: the option, and the value after its name if there is one. -/
def optionOf? (specs : List OptionSpec) (arg : Text) : Option (OptionSpec × Option Text) :=
  match arg with
  | '-' :: '-' :: long => do
    let name := long.takeWhile (· != '=')
    let spec ← specs.find? fun s => s.name == name
    match long.drop name.length with
    | []     => return (spec, none)
    | _ :: v => return (spec, some v)
  | '-' :: c :: rest => do
    let spec ← specs.find? fun s => s.letter == some c
    match rest with
    | []       => return (spec, none)
    | '=' :: v => return (spec, some v)
    | v        => return (spec, some v)
  | _ => none

/-- The value of an option, attached to it or in the next argument, and the arguments after it; nothing if there is no
    such value. -/
def takeValue? : ValueKind → Option Text → List Text → Option (Text × List Text)
  | .nothing, none,   args      => some ([], args)
  | .nothing, some _, _         => none
  | kind,     some v, args      => if kind.accepts v then some (v, args) else none
  | _,        none,   []        => none
  | kind,     none,   v :: args => if !opensOption v && kind.accepts v then some (v, args) else none

/-- The option that an argument gives with its value, and the arguments after it; nothing if the option is wrong or was
    given before. -/
def takeOption? (specs : List OptionSpec) (given : Given) (arg : Text) (args : List Text) :
    Option ((Text × Text) × List Text) :=
  match optionOf? specs arg with
  | none                  => none
  | some (spec, attached) =>
    if given.any fun g => g.1 == spec.name then none
    else (takeValue? spec.kind attached args).map fun (v, rest) => ((spec.name, v), rest)

theorem length_takeValue?_le {kind : ValueKind} {attached : Option Text} {args rest : List Text} {v : Text}
    (h : takeValue? kind attached args = some (v, rest)) : rest.length ≤ args.length := by
  unfold takeValue? at h
  split at h
  · simp_all
  · simp at h
  · simp_all
  · simp at h
  · simp_all

theorem length_takeOption?_le {specs : List OptionSpec} {given : Given} {arg : Text} {args rest : List Text}
    {option : Text × Text} (h : takeOption? specs given arg args = some (option, rest)) :
    rest.length ≤ args.length := by
  unfold takeOption? at h
  split at h
  · simp at h
  · split at h
    · simp at h
    · obtain ⟨⟨v, rest'⟩, hv, he⟩ := Option.map_eq_some_iff.1 h
      have := length_takeValue?_le hv
      simp_all

/-- What comes of taking options. -/
inductive Taken where
  /-- An option is wrong. -/
  | wrong
  /-- A description is asked for, and all before that is right. -/
  | help
  | options (given : Given) (rest : List Text)

/-- Take options up to the first argument that is none. -/
def takeOptions (specs : List OptionSpec) (given : Given) : List Text → Taken
  | []          => .options given []
  | arg :: args =>
    if !opensOption arg then .options given (arg :: args)
    else if arg = text "--" then (if args.isEmpty then .options given [] else .wrong)
    else if asksHelp arg then .help
    else match _h : takeOption? specs given arg args with
      | none                => .wrong
      | some (option, rest) => takeOptions specs (given ++ [option]) rest
termination_by args => args.length
decreasing_by
  have := length_takeOption?_le _h
  simp only [List.length_cons]; omega

/-! ## Invocations -/

/-- Settings for patches that the command line gives. -/
structure PatchOverrides where
  strip : Option Nat
  maxFuzz : Option Nat
  lenient : Bool
deriving DecidableEq, Repr

/-- No settings. -/
def PatchOverrides.none : PatchOverrides := ⟨.none, .none, false⟩

/-- A command with what was given for it. -/
inductive Invocation where
  /-- Decompile, then process. -/
  | run (input engine patches output : Text) (style workDir : Option Text) (keep : Bool)
      (overrides : PatchOverrides)
  /-- Fix up, patch and normalise. -/
  | process (input output : Text) (patches style keep : Option Text) (overrides : PatchOverrides)
  /-- Patch only. -/
  | patch (input patches : Text) (output : Option Text) (dryRun : Bool) (overrides : PatchOverrides)
  /-- Normalise only. -/
  | normalize (input : Text) (output style : Option Text) (dryRun : Bool)
  | pack (dir output : Text)
  | unpack (archive dir : Text)
deriving DecidableEq, Repr

/-- Options common to all commands. -/
structure Globals where
  config : Option Text
  logFile : Option Text
deriving DecidableEq, Repr

/-- What a command line asks for. -/
inductive Request where
  /-- The command line is wrong. -/
  | usage
  /-- A description of the commands. -/
  | help
  | invoke (globals : Globals) (invocation : Invocation)
deriving DecidableEq, Repr

/-! ## Commands -/

/-- The options common to all commands. -/
def globalSpecs : List OptionSpec := [valued "config", flag "debug", flag "quiet", valued "log-file"]

/-- The options for settings of patches. -/
def patchSpecs : List OptionSpec := [⟨text "strip", none, .word⟩, ⟨text "max-fuzz", none, .byte⟩, flag "lenient"]

/-- The commands with their options. -/
def commandSpecs : List (Text × List OptionSpec) :=
  [(text "run", [valued "input", valued "engine", valued "patches", outputSpec, valued "style",
      valued "work-dir", flag "keep-intermediate"] ++ patchSpecs),
    (text "process", [valued "input", outputSpec, valued "patches", valued "style",
      valued "keep-intermediate"] ++ patchSpecs),
    (text "patch", [valued "input", valued "patches", outputSpec, flag "dry-run"] ++ patchSpecs),
    (text "normalize", [valued "input", outputSpec, valued "style", flag "dry-run"]),
    (text "pack", [valued "dir", outputSpec]),
    (text "unpack", [valued "archive", valued "dir"])]

/-- How an option is written. -/
def OptionSpec.usage (s : OptionSpec) : Text :=
  text " [--" ++ s.name ++ (if s.kind = .nothing then [] else text " VALUE") ++ [']']

/-- How command lines are written. -/
def usageLines : List Text :=
  [text "Usage: javamend [OPTIONS] COMMAND [OPTIONS]", [], text "Options:" ++ globalSpecs.flatMap OptionSpec.usage, []]
    ++ commandSpecs.map fun (name, own) => text "  " ++ name ++ own.flatMap OptionSpec.usage

namespace Given

/-- The value of an option. -/
def value? (given : Given) (name : String) : Option Text := List.lookup (text name) given

/-- An option was given. -/
def has (given : Given) (name : String) : Bool := (given.value? name).isSome

/-- An optional number; nothing if it was given and is none. -/
def number? (given : Given) (name : String) (read : Text → Option Nat) : Option (Option Nat) :=
  match given.value? name with
  | none   => some none
  | some t => (read t).map some

/-- The settings for patches; nothing if a number is wrong. -/
def overrides? (given : Given) : Option PatchOverrides := do
  return ⟨← given.number? "strip" (readWord? 64), ← given.number? "max-fuzz" readByte?, given.has "lenient"⟩

end Given

/-- The invocation of a command with the given options; nothing if a required one is missing. -/
def invocation? (command : Text) (g : Given) : Option Invocation :=
  if command = text "run" then do
    return .run (← g.value? "input") (← g.value? "engine") (← g.value? "patches") (← g.value? "output")
      (g.value? "style") (g.value? "work-dir") (g.has "keep-intermediate") (← g.overrides?)
  else if command = text "process" then do
    return .process (← g.value? "input") (← g.value? "output") (g.value? "patches") (g.value? "style")
      (g.value? "keep-intermediate") (← g.overrides?)
  else if command = text "patch" then do
    return .patch (← g.value? "input") (← g.value? "patches") (g.value? "output") (g.has "dry-run")
      (← g.overrides?)
  else if command = text "normalize" then do
    return .normalize (← g.value? "input") (g.value? "output") (g.value? "style") (g.has "dry-run")
  else if command = text "pack" then do return .pack (← g.value? "dir") (← g.value? "output")
  else if command = text "unpack" then do return .unpack (← g.value? "archive") (← g.value? "dir")
  else none

/-- Options that exclude each other were both given. -/
def conflicting (g : Given) : Bool := g.has "debug" && g.has "quiet"

/-- What is asked for with the name of a command for a description. -/
def describe : List Text → Request
  | []        => .help
  | [command] =>
    if command = text "help" || commandSpecs.any fun c => c.1 == command then .help else .usage
  | _         => .usage

/-- What a command is asked for, after the options `before` it. -/
def parseCommand (before : Given) (command : Text) (args : List Text) : Request :=
  match commandSpecs.find? fun c => c.1 == command with
  | none          => .usage
  | some (_, own) =>
    match takeOptions (own ++ globalSpecs) [] args with
    | .wrong             => .usage
    | .help              => .help
    | .options given []  =>
      -- What stands before the command and what stands after it are looked at apart.
      if conflicting before || conflicting given then .usage
      else
        let globals : Globals := {
          config := (given.value? "config").or (before.value? "config")
          logFile := (given.value? "log-file").or (before.value? "log-file") }
        match invocation? command given with
        | some i => .invoke globals i
        | none   => .usage
    | .options _ (_ :: _) => .usage

/-- What a command line asks for. -/
def parse (args : List Text) : Request :=
  match takeOptions globalSpecs [] args with
  | .wrong                       => .usage
  | .help                        => .help
  | .options _ []                => .usage
  | .options before (command :: args) =>
    if command = text "help" then describe args else parseCommand before command args

end JavaMend.CommandLine
