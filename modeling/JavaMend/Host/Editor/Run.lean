import JavaMend.Host.Editor.Reader
import JavaMend.Host.Options

/-!
# `Host.Editor.Run` — editing a stream line by line

Each line is laid into a workspace and goes through the steps of the script; then the workspace is printed. A second
workspace is at hand to keep something. A last line without an end is printed without one, unless something follows.

## Contents
- **What is at work.** `Space`, `Range`, `Sink`, `Queued`, `Desk`, `Settings`, `Editing`.
- **Writing.** `put`, `emit`, `emitSpace`, `flushQueue`.
- **Lines.** `isLast`, `nextLine`, `endFile`.
- **Where steps apply.** `fits`, `inScope`.
- **Substitutions.** `Pattern.hits`, `replacement`, `substitute`.
- **Steps.** `Flow`, `perform`, `runSteps`, `runCycles`.
- **The tool.** `sed`.
-/

namespace JavaMend.Host.Editor

open JavaMend Text

/-! ## What is at work -/

/-- A workspace: its text, and whether the last line of it is ended. -/
structure Space where
  chars : Text
  ended : Bool

/-- How far the range of a step has come. -/
inductive Range where
  | waiting
  /-- It goes on, up to a line if its number is known. -/
  | within (stop : Option Nat)
  | done
deriving DecidableEq

/-- Where something is written to. -/
inductive Sink where
  /-- Where the edited lines go. -/
  | result
  | output
  | errors
  | file (name : Text)
deriving DecidableEq

/-- What is printed behind a line. -/
inductive Queued where
  | chars (t : Text)
  | file (name : Text)

/-- The state of the work. -/
structure Desk where
  space : Space
  hold : Space
  number : Nat
  /-- The name of the file that is read. -/
  name : Text
  /-- The lines of it that are left, with their ends. -/
  lines : List Text
  /-- The files that are still to be read. -/
  files : List (Text × Except PathFault Text)
  ranges : Array Range
  replaced : Bool
  queue : List Queued
  /-- The pattern that was looked for last. -/
  pattern : Option Pattern
  /-- Where the last line is not yet ended. -/
  unended : List Sink
  /-- What was written to files. -/
  written : List (Text × Text)
  /-- What is left of the files that are read line by line. -/
  sources : List (Text × List Text)
  /-- What was printed for the file that is edited, the latest first. -/
  draft : List Text
  /-- How much more may be done. -/
  budget : Nat

/-- How the work is done. -/
structure Settings where
  script : Script
  quiet : Bool
  /-- Each file has line numbers and a last line of its own. -/
  separate : Bool
  /-- Files are changed, and kept under another name if this is not empty. -/
  inPlace : Option Text
  separator : Char
  width : Nat
  /-- A line that is to be joined with the one after the last is not printed. -/
  strict : Bool
  /-- The last part of the script, and where it ends. -/
  lastPart : Source × Nat

/-- Steps of the work. -/
abbrev Editing := ReaderT Settings (StateT Desk Job)

/-- Do something as a tool. -/
def act {α : Type} (j : Job α) : Editing α := fun _ => StateT.lift j

/-- The script turns out to be wrong while it runs. -/
def failWith {α : Type} (f : ScriptFault) : Editing α := do
  let (source, place) := (← read).lastPart
  act (quitWith 1 (ScriptError.fault source place f).message)

/-! ## Writing -/

/-- The sink that the name of a file stands for. -/
def sinkOf (name : Text) : Sink :=
  if name = text "/dev/stdout" then .output else if name = text "/dev/stderr" then .errors else .file name

/-- Write as it is. -/
def put (s : Sink) (t : Text) : Editing Unit := do
  match s with
  | .result    =>
    if (← read).inPlace.isSome then modify fun d => { d with draft := t :: d.draft } else act (Host.print t)
  | .output    => act (Host.print t)
  | .errors    => act (Host.write 2 t)
  | .file name => do
    let whole := ((← get).written.lookup name).getD [] ++ t
    modify fun d => { d with written := (name, whole) :: d.written.filter fun w => w.1 != name }
    discard (act (writePath name whole))

/-- End the last line, if it is not. -/
def endLast (s : Sink) : Editing Unit := do
  if s ∈ (← get).unended then
    modify fun d => { d with unended := d.unended.erase s }
    put s [(← read).separator]

/-- Write a text of whole lines. -/
def emitLines (s : Sink) (t : Text) : Editing Unit := do
  endLast s
  put s t

/-- Write a line, which may be without its end. -/
def emit (s : Sink) (t : Text) (ended : Bool) : Editing Unit := do
  endLast s
  let separator := (← read).separator
  put s (if ended then t ++ [separator] else t)
  if !ended then modify fun d => { d with unended := s :: d.unended }

/-- Write the workspace. -/
def emitSpace (s : Sink) : Editing Unit := do
  let space := (← get).space
  emit s space.chars space.ended

/-- The first line of a text; none if it is the only one. -/
def firstLine? (separator : Char) (t : Text) : Option Text :=
  let l := t.takeWhile (· != separator)
  if l.length < t.length then some l else none

/-- Write the first line of the workspace. -/
def emitFirst (s : Sink) : Editing Unit := do
  match firstLine? (← read).separator (← get).space.chars with
  | some l => emit s l true
  | none   => emitSpace s

/-- Print what is to stand behind the line. -/
def flushQueue : Editing Unit := do
  let queue := (← get).queue
  modify fun d => { d with queue := [] }
  for q in queue do
    match q with
    | .chars t   => emitLines .result t
    | .file name =>
      match ← act (readPath name) with
      | .ok t    => if !t.isEmpty then emitLines .result t
      | .error _ => pure ()

/-! ## Lines -/

/-- There is no line after this one. -/
def isLast : Editing Bool := do
  let d ← get
  let isEmpty (f : Text × Except PathFault Text) : Bool := match f.2 with
    | .ok t    => t.isEmpty
    | .error _ => true
  return d.lines.isEmpty && ((← read).separate || d.files.all isEmpty)

/-- The name under which a file is kept that is changed. -/
def keptName (suffix name : Text) : Text :=
  let base := (name.reverse.takeWhile (· != '/')).reverse
  let folder := name.take (name.length - base.length)
  if '*' ∈ suffix then
    let kept := replaceAll ['*'] base suffix
    if '/' ∈ kept then kept else folder ++ kept
  else name ++ suffix

/-- Finish the file that is edited. -/
def endFile : Editing Unit := do
  match (← read).inPlace with
  | none        => return
  | some suffix => do
    let d ← get
    if d.name.isEmpty then return
    if !suffix.isEmpty then
      match ← act (readPath d.name) with
      | .ok old  => discard (act (writePath (keptName suffix d.name) old))
      | .error _ => pure ()
    discard (act (writePath d.name d.draft.reverse.flatten))
    set { d with draft := [], name := [], unended := d.unended.erase .result }

/-- How the ranges of a script begin. -/
def startRanges (s : Script) : Array Range :=
  s.steps.map fun step => if step.scope.beginsAtOnce then .within none else .waiting

/-- Open the next file that has lines; whether there is one. -/
def openNext : List (Text × Except PathFault Text) → Editing Bool
  | []                   => do
    modify fun d => { d with files := [] }
    return false
  | (name, found) :: more => do
    let settings ← read
    match found with
    | .error .isFolder =>
      if settings.inPlace.isSome then act (quitWith 4 (text "couldn't edit " ++ name ++ text ": not a regular file"))
      else act (quitWith 4 (text "read error on " ++ name ++ text ": Is a directory"))
    | .error e         => do
      act (blame (text "can't read " ++ name ++ text ": " ++ e.message))
      act (setCode 2)
      openNext more
    | .ok t            => do
      modify fun d => { d with lines := keptParts settings.separator t, files := more, name := name }
      if settings.separate then
        modify fun d => { d with number := 0, ranges := startRanges settings.script }
      if t.isEmpty then
        endFile
        openNext more
      else return true

/-- Take the next line, which is laid into the workspace or added to it; whether there is one. -/
def nextLine (adds : Bool) : Editing Bool := do
  flushQueue
  modify fun d => { d with replaced := false }
  let there ← if (← get).lines.isEmpty then do
      endFile
      openNext (← get).files
    else pure true
  if !there then return false
  let separator := (← read).separator
  let d ← get
  match d.lines with
  | []      => return false
  | l :: ls => do
    let chars := barePart separator l
    let ended := chars.length < l.length
    let space : Space :=
      if adds then ⟨d.space.chars ++ separator :: chars, ended⟩ else ⟨chars, ended⟩
    set { d with lines := ls, number := d.number + 1, space := space }
    return true

/-! ## Where steps apply -/

/-- The pattern to be looked for, which is then the last one. -/
def usePattern (p : Option Pattern) : Editing Pattern := do
  match p.or (← get).pattern with
  | none   => failWith .noPattern
  | some p => do
    modify fun d => { d with pattern := some p }
    return p

/-- The line is at a spot. -/
def fits : Spot → Editing Bool
  | .line n          => return (← get).number == n
  | .every first step => do
    let n := (← get).number
    return first ≤ n && (n - first) % step == 0
  | .last            => isLast
  | .fits p          => do
    let p ← usePattern p
    return p.re.isIn (p.haystack (← get).space.chars)

/-- Set the range of a step. -/
def setRange (i : Nat) (r : Range) : Editing Unit := modify fun d => { d with ranges := d.ranges.setIfInBounds i r }

/-- The range of a step begins with this line. A range from a line on may also begin later, if that line was passed
    over. -/
def begins (s : Spot) (u : Until) : Editing Bool := do
  let n := (← get).number
  match s, u with
  | .line m, .spot (.line k) => return n == m || (m ≤ n && n ≤ k)
  | .line m, _               => return m ≤ n
  | s,       _               => fits s

/-- The step with this number and scope is meant for the line. -/
def inScope (i : Nat) (scope : Scope) : Editing Bool := do
  match scope.start, scope.stop with
  | none,   _      => return true
  | some s, none   => fits s
  | some s, some u => do
    let n := (← get).number
    let finished : Range := match s with
      | .line _ => .done
      | _       => .waiting
    let endAt (stop : Nat) : Editing Unit := if stop ≤ n then setRange i finished else setRange i (.within (some stop))
    match ((← get).ranges[i]?).getD .waiting with
    | .done        => return false
    | .waiting     =>
      if !(← begins s u) then return false
      match u with
      | .spot (.line k) => endAt k
      | .further k      => endAt (n + k)
      | .multiple 0     => setRange i finished
      | .multiple k     => endAt (n - n % k + k)
      | .spot _         => setRange i (.within none)
      return true
    | .within stop =>
      match u, stop with
      | .spot (.line k), _       => do
        if k ≤ n then setRange i finished
        return n ≤ k
      | .spot t,         _       => do
        if ← fits t then setRange i finished
        return true
      | _,               some k  => do
        if k ≤ n then setRange i finished
        return true
      | _,               none    => return true

/-! ## Substitutions -/

/-- The matches of a pattern, at most so many; an empty one right behind another match does not count. `fuel` bounds
    their number. -/
def Pattern.hits (p : Pattern) (h : Haystack) : Nat → Option Nat → Option Nat → Nat → List Re.Hit
  | 0,        _,    _,    _ => []
  | fuel + 1, most, last, i =>
    if most = some 0 then []
    else match p.re.find? h i with
      | none     => []
      | some hit =>
        if hit.start = hit.stop then
          if last = some hit.start then Pattern.hits p h fuel most none (hit.start + 1)
          else hit :: Pattern.hits p h fuel (most.map (· - 1)) none (hit.start + 1)
        else hit :: Pattern.hits p h fuel (most.map (· - 1)) (some hit.stop) hit.stop

/-- Letters in the case that is asked for; what is asked for the next letter is used up by it. -/
def inCase (c : CaseChange) (once : Option CaseChange) (t : Text) : Text × Option CaseChange :=
  match t, once with
  | [],     _      => ([], once)
  | a :: r, some o => (o.apply a :: r.map c.apply, none)
  | t,      none   => (t.map c.apply, none)

/-- What is put in the place of a match. -/
def replacement (h : Haystack) (hit : Re.Hit) : CaseChange → Option CaseChange → List Piece → Text
  | _, _,    []      => []
  | c, once, p :: ps =>
    match p with
    | .chars t => let (t, once) := inCase c once t; t ++ replacement h hit c once ps
    | .group n =>
      let found := match hit.group? n with
        | some (a, b) => h.part a b
        | none        => []
      let (t, once) := inCase c once found
      t ++ replacement h hit c once ps
    | .cased c => replacement h hit c none ps
    | .next o  => replacement h hit c (some o) ps

/-- The text with some of the matches replaced, from a position on. -/
def replaceHits (h : Haystack) (s : Substitution) : Nat → Nat → List Re.Hit → Text
  | _,      i, []          => h.part i h.chars.size
  | number, i, hit :: more =>
    let kept := h.part i hit.start
    let inside := if number < s.number then h.part hit.start hit.stop else replacement h hit .keep none s.pieces
    kept ++ inside ++ replaceHits h s (number + 1) hit.stop more

/-- What a command of the shell prints. -/
def outputOf (command : Text) : Editing Text := act do
  match ← captureProgram (text "/bin/sh") (text "sh") [text "-c", command] with
  | .ok t    => return t
  | .error _ => return []

/-- The output of a command, without the end of its last line. -/
def runSpace : Editing Unit := do
  let t ← outputOf (← get).space.chars
  let t := barePart (← read).separator t
  modify fun d => { d with space := { d.space with chars := t } }

/-- Take from the budget; what uses it up never ends. -/
def spendSome (cost : Nat) : Editing Unit := do
  let d ← get
  if d.budget < cost then act (throw .endless)
  set { d with budget := d.budget - cost }

/-- A workspace that is longer than this is worked on with more effort. -/
def longSpace : Nat := 10000

/-- Replace matches in the workspace. -/
def substitute (s : Substitution) : Editing Unit := do
  let p ← usePattern s.pattern
  if p.groups < s.greatest then failWith (.noGroup s.greatest)
  let h := p.haystack (← get).space.chars
  let most := if s.all then none else some s.number
  let hits := p.hits h (2 * h.chars.size + 2) most none 0
  if hits.length < s.number then return
  let t := replaceHits h s 1 0 hits
  spendSome (t.length / 16 + if longSpace < t.length then t.length else 0)
  modify fun d => { d with space := { d.space with chars := t }, replaced := true }
  if s.runs then
    if s.printsFirst then emitSpace .result
    runSpace
  if s.prints then emitSpace .result
  match s.file with
  | some file => emitSpace (sinkOf file)
  | none      => pure ()

/-! ## Steps -/

/-- How the work goes on after a step. -/
inductive Flow where
  | onward
  /-- With the step of this number. -/
  | goTo (i : Nat)
  /-- With the next line, after the workspace is printed if this is asked for. -/
  | finish (prints : Bool)
  /-- From the start with what is in the workspace. -/
  | again
  | quit (code : Nat) (prints : Bool)

/-- A character as it is shown when all characters are to be told apart. -/
def shownChar (c : Char) : Text :=
  match c with
  | '\\'   => text "\\\\"
  | '\x07' => text "\\a"
  | '\x08' => text "\\b"
  | '\x0c' => text "\\f"
  | '\n'   => text "\\n"
  | '\r'   => text "\\r"
  | '\t'   => text "\\t"
  | '\x0b' => text "\\v"
  | c      => if ' ' ≤ c && c ≤ '~' then [c] else '\\' :: zeroPadded 3 (Nat.toDigits 8 c.toNat)

/-- Shown characters in lines that are no longer than a width; `column` is where the next one stands. -/
def wrapped (width : Nat) : Nat → List Text → Text
  | _,      []      => ['$']
  | column, c :: cs =>
    if width != 0 && width - 1 < column + c.length then text "\\\n" ++ c ++ wrapped width c.length cs
    else c ++ wrapped width (column + c.length) cs

/-- Take the next line of a file that is read line by line. -/
def lineOf (file : Text) : Editing (Option Text) := do
  let lines ← match (← get).sources.lookup file with
    | some ls => pure ls
    | none    =>
      match ← act (readPath file) with
      | .ok t    => pure (keptParts (← read).separator t)
      | .error _ => pure []
  let others := (← get).sources.filter fun s => s.1 != file
  modify fun d => { d with sources := (file, lines.drop 1) :: others }
  return lines.head?

/-- Do what a step does; `i` is its number. -/
def perform (i : Nat) : Deed → Editing Flow
  | .enter _        => return .onward
  | .leave          => return .onward
  | .label          => return .onward
  | .jump c label   => do
    let target := (← read).script.target label
    let replaced := (← get).replaced
    match c with
    | .always      => return .goTo target
    | .replaced    => do
      modify fun d => { d with replaced := false }
      return if replaced then .goTo target else .onward
    | .notReplaced => do
      modify fun d => { d with replaced := false }
      return if replaced then .onward else .goTo target
  | .substitute s   => do
    substitute s
    return .onward
  | .replaceChars pairs => do
    modify fun d => { d with space := { d.space with chars := d.space.chars.map fun c => (pairs.reverse.lookup c).getD c } }
    return .onward
  | .addAfter t     => do
    if !t.isEmpty then modify fun d => { d with queue := d.queue ++ [.chars t] }
    return .onward
  | .addBefore t    => do
    emitLines .result t
    return .onward
  | .putInstead t   => do
    match ((← get).ranges[i]?).getD .waiting with
    | .within _ => pure ()
    | _         => emitLines .result t
    return .finish false
  | .delete         => return .finish false
  | .deleteFirst    => do
    match firstLine? (← read).separator (← get).space.chars with
    | none   => return .finish false
    | some l => do
      modify fun d => { d with space := { d.space with chars := d.space.chars.drop (l.length + 1) } }
      return .again
  | .print          => do
    emitSpace .result
    return .onward
  | .printFirst     => do
    emitFirst .result
    return .onward
  | .next           => do
    if ← isLast then return .finish true
    if !(← read).quiet then emitSpace .result
    return if ← nextLine false then .onward else .finish false
  | .join           => do
    if ← isLast then return .finish !(← read).strict
    return if ← nextLine true then .onward else .finish true
  | .copyOut        => do
    modify fun d => { d with hold := d.space }
    return .onward
  | .appendOut      => do
    let separator := (← read).separator
    modify fun d => { d with hold := ⟨d.hold.chars ++ separator :: d.space.chars, d.space.ended⟩ }
    return .onward
  | .copyIn         => do
    modify fun d => { d with space := d.hold }
    return .onward
  | .appendIn       => do
    let separator := (← read).separator
    modify fun d => { d with space := ⟨d.space.chars ++ separator :: d.hold.chars, d.hold.ended⟩ }
    return .onward
  | .exchange       => do
    modify fun d => { d with space := d.hold, hold := d.space }
    return .onward
  | .clear          => do
    modify fun d => { d with space := { d.space with chars := [] } }
    return .onward
  | .number         => do
    emitLines .result (ofNat (← get).number ++ ['\n'])
    return .onward
  | .fileName       => do
    emitLines .result ((← get).name ++ ['\n'])
    return .onward
  | .show width     => do
    let width := width.getD (← read).width
    emitLines .result (wrapped width 0 ((← get).space.chars.map shownChar) ++ ['\n'])
    return .onward
  | .quit code prints => return .quit code prints
  | .addFile file   => do
    modify fun d => { d with queue := d.queue ++ [.file file] }
    return .onward
  | .addLine file   => do
    match ← lineOf file with
    | some l => modify fun d => { d with queue := d.queue ++ [.chars l] }
    | none   => pure ()
    return .onward
  | .write file     => do
    emitSpace (sinkOf file)
    return .onward
  | .writeFirst file => do
    emitFirst (sinkOf file)
    return .onward
  | .run none       => do
    runSpace
    return .onward
  | .run (some c)   => do
    emitLines .result (← outputOf c)
    return .onward

/-- Do one more step on the workspace. -/
def spend : Editing Unit := do spendSome (1 + (← get).space.chars.length / 64)

/-- Run the steps from a number on. `fuel` bounds how many. -/
def runSteps : Nat → Nat → Editing Flow
  | 0,        _ => act (throw .endless)
  | fuel + 1, i => do
    match (← read).script.steps[i]? with
    | none      => return .finish true
    | some step => do
      spend
      if (← inScope i step.scope) != step.scope.negated then
        match ← perform i step.deed with
        | .onward => runSteps fuel (i + 1)
        | .goTo j => runSteps fuel j
        | flow    => return flow
      else match step.deed with
        | .enter stop => runSteps fuel (stop + 1)
        | _           => runSteps fuel (i + 1)

/-- How much work may be done. -/
def workLimit : Nat := 1500000

/-- Edit line after line; the exit code if the script gives one. `fuel` bounds the rounds. -/
def runCycles : Nat → Bool → Editing (Option Nat)
  | 0,        _     => act (throw .endless)
  | fuel + 1, reads => do
    spend
    let there ← if reads then nextLine false else pure true
    if !there then return none
    match ← runSteps workLimit 0 with
    | .quit code prints => do
      if prints then
        if !(← read).quiet then emitSpace .result
        flushQueue
      return some code
    | .again            => runCycles fuel false
    | .finish prints    => do
      if prints && !(← read).quiet then emitSpace .result
      runCycles fuel true
    | _                 => runCycles fuel true

/-- Edit all lines. -/
def edit : Editing Unit := do
  let code ← runCycles workLimit true
  flushQueue
  endFile
  match code with
  | some n => act (setCode n)
  | none   => pure ()

/-! ## The tool -/

/-- The files that steps write to. -/
def Script.outputs (s : Script) : List Text :=
  (s.steps.toList.filterMap fun step => match step.deed with
    | .write file      => some file
    | .writeFirst file => some file
    | .substitute s    => s.file
    | _                => none).filter fun file => match sinkOf file with
      | .file _ => true
      | _       => false

/-- The options. -/
def sedOptions : OptionSpec :=
  { flags := "nErsuz1234", valued := "efl", optional := "i", inOrder := false
    long := [("expression", 'e'), ("file", 'f'), ("quiet", 'n'), ("silent", 'n'), ("regexp-extended", 'E'),
      ("separate", 's'), ("unbuffered", 'u'), ("null-data", 'z'), ("zero-terminated", 'z'), ("in-place", 'i'),
      ("line-length", 'l'), ("posix", '1'), ("debug", '2'), ("follow-symlinks", '3'), ("binary", '4')] }

/-- Read the parts of the script that options and operands give, in their order. -/
def readParts (options : Options) : Dialect → Nat → Draft → Option (Source × Nat) → Job (Draft × Option (Source × Nat)) :=
  options.foldr (fun (c, value) rest d n b last => do
    let add (p : Part) (n : Nat) : Job (Draft × Option (Source × Nat)) := do
      match b.addPart d last.isNone p with
      | .ok b    => rest d n b (some (p.source, match p.source with
        | .argument _ => 0
        | .file _     => p.place 0))
      | .error e => quitWith e.code e.message
    match c with
    | 'E' => rest { d with extended := true } n b last
    | 'r' => rest { d with extended := true } n b last
    | 'z' => rest { d with separator := '\x00' } n b last
    | 'e' => add ⟨.argument (n + 1), value⟩ (n + 1)
    | 'f' => do
      match ← readSource value with
      | .ok t    =>
        -- A line at the end needs no end.
        add ⟨.file value, barePart '\n' t⟩ n
      | .error e => quitWith 4 (text "couldn't open file " ++ value ++ text ": " ++ e.message)
    | _   => rest d n b last) fun _ _ b last => return (b, last)

/-- The files to be read, with what is in them. -/
def openInputs (names : List Text) : Job (List (Text × Except PathFault Text)) := do
  let mut inputs := []
  for name in if names.isEmpty then [['-']] else names do
    inputs := (name, ← readSource name) :: inputs
  return inputs.reverse

/-- Edit a stream. -/
def sed : Tool := Job.tool fun args => do
  let (options, operands) ← takeOptions 1 sedOptions args
  let isScripted := isGiven options 'e' || isGiven options 'f'
  let (options, operands) ← if isScripted then pure (options, operands)
    else match operands with
      | []              => misused 1 (text "no script")
      | script :: files => pure (options ++ [('e', script)], files)
  let (draft, last) ← readParts options ⟨false, '\n'⟩ 0 .empty none
  let script ← match draft.finish with
    | .ok s    => pure s
    | .error e => quitWith e.code e.message
  for file in script.outputs do
    match ← writePath file [] with
    | none   => pure ()
    | some e => quitWith 4 (text "couldn't open file " ++ file ++ text ": " ++ e.message)
  let inPlace := given? options 'i'
  if inPlace.isSome && operands.isEmpty then quitWith 4 (text "no input files")
  let separator := if isGiven options 'z' then '\x00' else '\n'
  let settings : Settings :=
    { script := script, quiet := script.quiet || isGiven options 'n', separate := inPlace.isSome || isGiven options 's'
      inPlace := inPlace, separator := separator
      width := ((given? options 'l').map fun t => ofDigits 10 (t.takeWhile isAsciiDigit)).getD 70
      strict := isGiven options '1'
      lastPart := last.getD (.argument 1, 0) }
  let input := (← get).rest
  let desk : Desk :=
    { space := ⟨[], true⟩, hold := ⟨[], true⟩, number := 0, name := [], lines := [], files := ← openInputs operands
      ranges := startRanges script, replaced := false, queue := [], pattern := none, unended := [], written := []
      sources := [], draft := [], budget := workLimit }
  let (_, desk) ← (edit.run settings).run desk
  -- What was not used of the input is left for others.
  if operands.isEmpty then
    leaveInput (if isGiven options 'u' then 1 else 4096) input (input.length - (desk.lines.flatten).length)

end JavaMend.Host.Editor
