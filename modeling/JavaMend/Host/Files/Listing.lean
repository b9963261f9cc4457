import JavaMend.Host.Files.Changes
import JavaMend.Host.Pattern.Glob
import JavaMend.Host.Streams.Lines

/-!
# `Host.Files.Listing` — tools that look for files

## Contents
- **Listing.** `ls`.
- **Conditions on files.** `Found`, `Goal`, `Goal.read`.
- **Searching.** `find`.
-/

namespace JavaMend.Host

open JavaMend Text

/-! ## Listing -/

/-- The sign that is put after the name of an item. -/
def kindSign (options : Options) (item : Item) : Text :=
  match item with
  | .folder       => if isGiven options 'F' || isGiven options 'p' then ['/'] else []
  | .link _       => if isGiven options 'F' then ['@'] else []
  | .file _ true  => if isGiven options 'F' then ['*'] else []
  | _             => []

/-- Names in the order in which they are shown, in one text. -/
def listed (options : Options) (entries : List (Text × Item)) : Text :=
  let entries := if isGiven options 'U' || isGiven options 'f' then entries
    else entries.mergeSort fun a b => !before b.1 a.1
  let entries := if isGiven options 'r' then entries.reverse else entries
  let shown := entries.map fun (name, item) =>
    (if isGiven options 'Q' then '"' :: name ++ ['"'] else name) ++ kindSign options item
  if isGiven options 'm' then if shown.isEmpty then [] else joinWith (text ", ") shown ++ ['\n'] else endLines shown

/-- List what is in a folder, and in the folders in it if this is asked for. `fuel` bounds the depth. -/
def listFolder (options : Options) : Nat → (titled : Bool) → Text → Place → Job Unit
  | 0,        _,      _,    _     => return
  | fuel + 1, titled, path, place => do
    let d ← diskNow
    if titled then print (path ++ text ":\n")
    let all := isGiven options 'a' || isGiven options 'f'
    let entries := (d.children place).map fun (n, item) => (argumentOf n, item)
    let visible := if all then (['.'], Item.folder) :: (text "..", Item.folder) :: entries
      else if isGiven options 'A' then entries else entries.filter fun e => e.1.head? != some '.'
    print (listed options visible)
    if isGiven options 'R' then
      let inner := visible.filter fun e => e.2 == .folder && e.1 != ['.'] && e.1 != text ".."
      let inner := inner.mergeSort fun a b => !before b.1 a.1
      for (name, _) in if isGiven options 'r' then inner.reverse else inner do
        print ['\n']
        listFolder options fuel true (pathThrough path [ofBytesName name]) (place ++ [pathOf name])
where
  /-- The name as it stands on the disk. -/
  ofBytesName (name : Text) : Text := pathOf name

/-- List files and what is in folders. -/
def ls : Tool := Job.tool fun args => do
  let spec : OptionSpec :=
    { flags := "1aAdFpRrQmtSUXfclghikLnNoqsuvxBCGHZ", valued := "wTI", optional := "", inOrder := false
      long := [("all", 'a'), ("almost-all", 'A'), ("directory", 'd'), ("classify", 'F'), ("recursive", 'R'),
        ("reverse", 'r'), ("quote-name", 'Q'), ("human-readable", 'h')] }
  let args := args.filter fun a => !startsWith (text "--color") a
  let (options, paths) ← takeOptions 2 spec args
  let dir := (← read).dir
  let d ← diskNow
  let mut files : List (Text × Item) := []
  let mut inner : List (Text × Place) := []
  let paths := if paths.isEmpty then [['.']] else paths
  for path in paths do
    let followed := d.find dir (pathOf path)
    let entry := d.findEntry dir (pathOf path)
    match if isGiven options 'd' || followed.toOption.isNone then entry else followed with
    | .error e             => do
      blame (text "cannot access " ++ quoted path ++ text ": " ++ e.message)
      setCode 2
    | .ok (place, .folder) =>
      if isGiven options 'd' then files := (path, .folder) :: files else inner := (path, place) :: inner
    | .ok (_, item)        => files := (path, item) :: files
  print (listed options files.reverse)
  let folders := inner.reverse.mergeSort fun a b => !before b.1 a.1
  let folders := if isGiven options 'r' then folders.reverse else folders
  let titled := isGiven options 'R' || 1 < paths.length
  for ((path, place), i) in folders.zipIdx do
    if 0 < i || !files.isEmpty then print ['\n']
    listFolder options depthLimit titled path place

/-! ## Conditions on files -/

/-- Something that was found. -/
structure Found where
  path : Text
  place : Place
  item : Item
  depth : Nat
  /-- The path where the search started. -/
  start : Text

/-- What is asked of something that is found, and done with it. -/
inductive Goal where
  | name (g : Glob) (folds : Bool)
  | path (g : Glob) (folds : Bool)
  | kind (letters : Text)
  | empty
  | size (compare : Ordering) (units unit : Nat)
  | executable
  | always (holds : Bool)
  | print (ending : Text)
  | printAs (format : Text)
  | delete
  /-- Do not look into it. -/
  | prune
  | quit
  /-- Run a program for it, or for many at once. -/
  | run (command : List Text) (together : Bool)
  | not (g : Goal)
  | both (a b : Goal)
  | either (a b : Goal)
  /-- Both are tried, and only the second one counts. -/
  | after (a b : Goal)

/-- The goal does something. -/
def Goal.acts : Goal → Bool
  | .print _    => true
  | .printAs _  => true
  | .delete     => true
  | .quit       => true
  | .run _ _    => true
  | .not g      => g.acts
  | .both a b   => a.acts || b.acts
  | .either a b => a.acts || b.acts
  | .after a b  => a.acts || b.acts
  | _           => false

/-- The goal has this property in a part. -/
def Goal.has (p : Goal → Bool) : Goal → Bool
  | .not g      => p (.not g) || g.has p
  | .both a b   => p (.both a b) || a.has p || b.has p
  | .either a b => p (.either a b) || a.has p || b.has p
  | .after a b  => p (.after a b) || a.has p || b.has p
  | g           => p g

/-- Bounds of the search. -/
structure Bounds where
  least : Nat
  most : Option Nat
  /-- What is in a folder comes before it. -/
  innerFirst : Bool

/-- A number with a sign that tells what is compared. -/
def readCompared? (t : Text) : Option (Ordering × Text) :=
  match t with
  | '+' :: r => some (.gt, r)
  | '-' :: r => some (.lt, r)
  | []       => none
  | r        => some (.eq, r)

/-- Reading goals: the arguments that are left. -/
abbrev GoalReader := StateT (List Text × Bounds) Job

/-- Take the argument of a condition. -/
def goalArgument (name : Text) : GoalReader Text := do
  match (← get).1 with
  | t :: rest => do
    modify fun s => (rest, s.2)
    return t
  | []        => (quitWith 1 (text "missing argument to " ++ ticked name) : Job Text)

/-- Take the words of a command up to their end. -/
def goalCommand (name : Text) : GoalReader (List Text × Bool) := do
  let args := (← get).1
  let isEnd (i : Nat) : Bool := args[i]? == some [';'] || (args[i]? == some ['+'] && 0 < i && args[i - 1]? == some (text "\x7b\x7d"))
  match (List.range args.length).find? isEnd with
  | some n => do
    modify fun s => (args.drop (n + 1), s.2)
    return (args.take n, args[n]? == some ['+'])
  | none   => (quitWith 1 (text "missing argument to " ++ ticked name) : Job (List Text × Bool))

/-- Change the bounds. -/
def onBounds (f : Bounds → Bounds) : GoalReader Unit := modify fun s => (s.1, f s.2)

/-- The number that a condition takes. -/
def goalNumber (name : Text) : GoalReader Nat := do
  let t ← goalArgument name
  match digitsValue? t with
  | some n => return n
  | none   => (quitWith 1 (text "Expected a positive decimal integer argument to " ++ name ++ text ", but got " ++ quoted t) : Job Nat)

/-- Read one condition. -/
def readCondition (name : Text) : GoalReader Goal := do
  let glob (folds : Bool) (t : Text) : Glob := Glob.ofText (if folds then t.map Char.toLower else t)
  match String.ofList name with
  | "-name"      => do return .name (glob false (← goalArgument name)) false
  | "-iname"     => do return .name (glob true (← goalArgument name)) true
  | "-path"      => do return .path (glob false (← goalArgument name)) false
  | "-wholename" => do return .path (glob false (← goalArgument name)) false
  | "-ipath"     => do return .path (glob true (← goalArgument name)) true
  | "-type"      => do return .kind (← goalArgument name)
  | "-empty"     => return .empty
  | "-executable" => return .executable
  | "-readable"  => return .always true
  | "-writable"  => return .always true
  | "-true"      => return .always true
  | "-false"     => return .always false
  | "-print"     => return .print ['\n']
  | "-print0"    => return .print ['\x00']
  | "-printf"    => do return .printAs (← goalArgument name)
  | "-delete"    => do
    onBounds fun b => { b with innerFirst := true }
    return .delete
  | "-prune"     => return .prune
  | "-quit"      => return .quit
  | "-depth"     => do
    onBounds fun b => { b with innerFirst := true }
    return .always true
  | "-maxdepth"  => do
    let n ← goalNumber name
    onBounds fun b => { b with most := some n }
    return .always true
  | "-mindepth"  => do
    let n ← goalNumber name
    onBounds fun b => { b with least := n }
    return .always true
  | "-size"      => do
    let t ← goalArgument name
    let read? : Option Goal := do
      let (compare, r) ← readCompared? t
      let digits := r.takeWhile isAsciiDigit
      let n ← digitsValue? digits
      let unit ← match r.drop digits.length with
        | []    => some 512
        | ['b'] => some 512
        | ['c'] => some 1
        | ['w'] => some 2
        | ['k'] => some 1024
        | ['M'] => some 1048576
        | ['G'] => some 1073741824
        | _     => none
      return .size compare n unit
    match read? with
    | some g => return g
    | none   => (quitWith 1 (text "invalid -size type " ++ ticked (t.drop (t.length - 1))) : Job Goal)
  | "-exec"      => do
    let (command, together) ← goalCommand name
    return .run command together
  | "-execdir"   => do
    let (command, together) ← goalCommand name
    return .run command together
  | _            => (quitWith 1 (text "unknown predicate " ++ ticked name) : Job Goal)

mutual

/-- Read goals that are separated by commas. `fuel` bounds the steps. -/
def readGoals : Nat → GoalReader Goal
  | 0        => return .always true
  | fuel + 1 => do
    let a ← readEither fuel
    if (← get).1.head? = some [','] then
      modify fun s => (s.1.tail, s.2)
      return .after a (← readGoals fuel)
    return a

/-- Read goals one of which is enough. -/
def readEither : Nat → GoalReader Goal
  | 0        => return .always true
  | fuel + 1 => do
    let a ← readBoth fuel
    let next := (← get).1.head?
    if next = some (text "-o") || next = some (text "-or") then
      modify fun s => (s.1.tail, s.2)
      return .either a (← readEither fuel)
    return a

/-- Read goals that are all needed. -/
def readBoth : Nat → GoalReader Goal
  | 0        => return .always true
  | fuel + 1 => do
    let a ← readOne fuel
    match (← get).1.head? with
    | none   => return a
    | some t =>
      if t = text "-a" || t = text "-and" then
        modify fun s => (s.1.tail, s.2)
        return .both a (← readBoth fuel)
      else if t ∈ [text "-o", text "-or", [','], [')']] then return a
      else return .both a (← readBoth fuel)

/-- Read one goal. -/
def readOne : Nat → GoalReader Goal
  | 0        => return .always true
  | fuel + 1 => do
    match (← get).1 with
    | []        => (quitWith 1 (text "invalid expression") : Job Goal)
    | t :: rest => do
      modify fun s => (rest, s.2)
      if t = ['!'] || t = text "-not" then return .not (← readOne fuel)
      if t = ['('] then
        let g ← readGoals fuel
        if (← get).1.head? = some [')'] then modify fun s => (s.1.tail, s.2)
        else (quitWith 1 (text "invalid expression; I was expecting to find a ')' somewhere but did not see one.") : Job Unit)
        return g
      if t.head? = some '-' then readCondition t
      else (quitWith 1 (text "paths must precede expression: " ++ ticked t) : Job Goal)

end

/-! ## Searching -/

/-- What a search has come to. -/
structure Search where
  /-- The things for programs that are run for many at once. -/
  waiting : List (List Text × List Text)
  /-- Do not look into what was just found. -/
  prunes : Bool
  quits : Bool

/-- Steps of a search. -/
abbrev Searching := StateT Search Job

/-- The letter of a kind of items. -/
def kindLetter : Item → Char
  | .folder   => 'd'
  | .file _ _ => 'f'
  | .link _   => 'l'
  | .device _ => 'c'

/-- The text that a format shows of something. -/
def Found.shown (f : Found) : Nat → Text → Text
  | 0,        _ => []
  | fuel + 1, t =>
    match t with
    | '%' :: c :: r =>
      (match c with
        | 'p' => f.path
        | 'f' => lastName f.path
        | 'h' => if '/' ∈ f.path then folderPart f.path else ['.']
        | 'P' => (f.path.drop f.start.length).dropWhile (· == '/')
        | 'H' => f.start
        | 'd' => ofNat f.depth
        | 'y' => [kindLetter f.item]
        | 's' => (match f.item with
          | .file data _ => ofNat data.length
          | .link t      => ofNat t.length
          | _            => text "4096")
        | 'l' => (match f.item with
          | .link t => argumentOf t
          | _       => [])
        | '%' => ['%']
        | c   => ['%', c]) ++ f.shown fuel r
    | '\\' :: c :: r =>
      (match c with
        | 'n'  => ['\n']
        | 't'  => ['\t']
        | '0'  => ['\x00']
        | '\\' => ['\\']
        | c    => ['\\', c]) ++ f.shown fuel r
    | c :: r        => c :: f.shown fuel r
    | []            => []

/-- The words of a command with the path in its place. -/
def commandFor (paths : List Text) (command : List Text) : List Text :=
  command.flatMap fun w => if w = text "\x7b\x7d" then paths else [replaceAll (text "\x7b\x7d") (paths.head?.getD []) w]

/-- Run a command; whether it ended well. -/
def runFor (command : List Text) : Job Bool := do
  match command with
  | []           => return false
  | program :: args => do
    let s ← read
    match ← runProgram program args [] false s.env none with
    | .error fault       => do
      blame (quoted program ++ text ": " ++ fault.message)
      return false
    | .ok (.ended e)     => return e.exit = .code 0
    | .ok _              => throw .endless

/-- Try a goal on something that was found. -/
def Goal.try (f : Found) : Goal → Searching Bool
  | .name g folds            =>
    let n := lastName f.path
    return g.fits (if folds then n.map Char.toLower else n)
  | .path g folds            => return g.fits (if folds then f.path.map Char.toLower else f.path)
  | .kind letters            => return letters.elem (kindLetter f.item)
  | .empty                   => do
    match f.item with
    | .file data _ => return data.isEmpty
    | .folder      => return ((← (diskNow : Job Disk)).children f.place).isEmpty
    | _            => return false
  | .size order units unit   => do
    let bytes := match f.item with
      | .file data _ => data.length
      | .link t      => t.length
      | _            => 4096
    return compareOfLessAndEq ((bytes + unit - 1) / unit) units == order
  | .executable              => return match f.item with
    | .file _ x => x
    | .folder   => true
    | _         => false
  | .always holds            => return holds
  | .print ending            => do
    (Host.print (f.path ++ ending) : Job Unit)
    return true
  | .printAs format          => do
    (Host.print (f.shown (format.length + 1) format) : Job Unit)
    return true
  | .delete                  => do
    let d ← (diskNow : Job Disk)
    if f.place.isEmpty || f.path = ['.'] then return true
    if (d.children f.place).isEmpty then
      modifyThe Work fun w => { w with disk := d.remove f.place }
      return true
    (refuseDelete : Job Unit)
    return false
  | .prune                   => do
    modify fun s => { s with prunes := true }
    return true
  | .quit                    => do
    modify fun s => { s with quits := true }
    return true
  | .run command together    => do
    if together then
      modify fun s =>
        { s with waiting := if s.waiting.any fun w => w.1 == command
            then s.waiting.map fun w => if w.1 == command then (w.1, w.2 ++ [f.path]) else w
            else s.waiting ++ [(command, [f.path])] }
      return true
    (runFor (commandFor [f.path] command) : Job Bool)
  | .not g                   => do return !(← g.try f)
  | .both a b                => do if ← a.try f then b.try f else return false
  | .either a b              => do if ← a.try f then return true else b.try f
  | .after a b               => do
    discard (a.try f)
    b.try f
where
  /-- The folder is not empty. -/
  refuseDelete : Job Unit := do
    blame (text "cannot delete " ++ quoted f.path ++ text ": " ++ PathFault.notEmpty.message)
    setCode 1

/-- Search below something. `fuel` bounds the depth. -/
def searchFrom (g : Goal) (b : Bounds) : Nat → Found → Searching Unit
  | 0,        _ => return
  | fuel + 1, f => do
    if (← get).quits then return
    let visit : Searching Unit := do
      if b.least ≤ f.depth && !(← get).quits then discard (g.try f)
    let enter : Searching Unit := do
      if f.item = .folder && b.most.all fun n => Nat.blt f.depth n then
        let d ← (diskNow : Job Disk)
        for (name, item) in d.children f.place do
          searchFrom g b fuel
            { f with path := pathThrough f.path [name], place := f.place ++ [name], item := item, depth := f.depth + 1 }
    modify fun s => { s with prunes := false }
    if b.innerFirst then
      enter
      visit
    else
      visit
      let s ← get
      set { s with prunes := false }
      if !s.prunes then enter

/-- Look for files. -/
def find : Tool := Job.prompt fun args => do
  let args := args.dropWhile fun a => a ∈ [text "-L", text "-H", text "-P"]
  let isGoal (a : Text) : Bool := (a.head? == some '-' && 1 < a.length) || a ∈ [['('], [')'], ['!'], [',']]
  let starts := args.takeWhile fun a => !isGoal a
  let rest := args.drop starts.length
  let starts := if starts.isEmpty then [['.']] else starts
  let (goal, (left, bounds)) ←
    if rest.isEmpty then pure (Goal.always true, (([] : List Text), (⟨0, none, false⟩ : Bounds)))
    else (readGoals (4 * rest.length + 8)).run (rest, ⟨0, none, false⟩)
  if !left.isEmpty then
    quitWith 1 (text "invalid expression; you have too many ')'")
  let goal := if goal.acts then goal else .both goal (.print ['\n'])
  let dir := (← read).dir
  let work : Searching Unit := do
    for start in starts do
      match (← (diskNow : Job Disk)).findEntry dir (pathOf start) with
      | .error e         => (do
        blame (quoted start ++ text ": " ++ e.message)
        setCode 1 : Job Unit)
      | .ok (place, item) => searchFrom goal bounds depthLimit ⟨start, place, item, 0, start⟩
  let (_, s) ← work.run ⟨[], false, false⟩
  for (command, paths) in s.waiting do
    if !(← runFor (commandFor paths command)) then setCode 1

end JavaMend.Host
