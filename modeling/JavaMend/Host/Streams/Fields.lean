import JavaMend.Host.Streams.Sorting

/-!
# `Host.Streams.Fields` — parts of lines, and lines side by side

## Contents
- **Parts.** `Range`, `readRanges`, `cut`.
- **Side by side.** `pasteMarks`, `paste`.
- **Sorted files.** `comm`, `join`.
-/

namespace JavaMend.Host

open JavaMend Text

/-! ## Parts -/

/-- Positions from one to another, or to the end; they are counted from 1. -/
abbrev Range := Nat × Option Nat

/-- Why a list of positions is refused. -/
inductive RangeFault where
  | zero
  | decreasing
  | noEnds
  | badValue (t : Text)

/-- One range of a list. -/
def readRange (t : Text) : Except RangeFault Range := do
  let number (t : Text) : Except RangeFault Nat :=
    match digitsValue? t with
    | some 0 => .error .zero
    | some n => .ok n
    | none   => .error (.badValue t)
  match splitOn '-' t with
  | [a]      => do
    let n ← number a
    return (n, some n)
  | [[], []] => .error .noEnds
  | [a, []]  => return (← number a, none)
  | [[], b]  => return (1, some (← number b))
  | [a, b]   => do
    let m ← number a
    let n ← number b
    if n < m then .error .decreasing else return (m, some n)
  | _        => .error (.badValue t)

/-- The ranges of a list, with commas or blanks between them. -/
def readRanges (t : Text) : Except RangeFault (List Range) :=
  (splitOn ',' (t.map fun c => if isGap c then ',' else c)).mapM readRange

/-- A position is in one of the ranges. -/
def inRanges (rs : List Range) (i : Nat) : Bool := rs.any fun r => r.1 ≤ i && r.2.all fun n => i ≤ n

/-- What is kept of items, as runs of items that follow one another in the ranges. -/
def keptRuns {α : Type} (chosen : Nat → Bool) (starts : Nat → Bool) (xs : List α) : List (List α) :=
  (xs.zipIdx.foldl (fun (runs : List (List α)) (x, i) =>
    if !chosen (i + 1) then runs
    else match runs with
      | []        => [[x]]
      | run :: rs => if starts (i + 1) then [x] :: run :: rs else (x :: run) :: rs) []).reverse.map List.reverse

/-- The options of `cut`. -/
def cutOptions : OptionSpec where
  flags := "nsz~"
  valued := "bcfdo"
  optional := ""
  long := [("bytes", 'b'), ("characters", 'c'), ("fields", 'f'), ("delimiter", 'd'), ("only-delimited", 's'),
    ("output-delimiter", 'o'), ("complement", '~'), ("zero-terminated", 'z')]
  inOrder := false

/-- Print parts of lines. -/
def cut : Tool := Job.tool fun args => do
  let (options, files) ← takeOptions 1 cutOptions args
  let lists := options.filter fun o => o.1 ∈ text "bcf"
  let (kind, list) ← match lists with
    | []       => misused 1 (text "you must specify a list of bytes, characters, or fields")
    | [l]      => pure l
    | _        => misused 1 (text "only one list may be specified")
  let byField := kind == 'f'
  let mark := if isGiven options 'z' then '\x00' else '\n'
  let separator ← match given? options 'd' with
    | none     => pure '\t'
    | some []  => pure '\x00'
    | some [c] => pure c
    | some _   => misused 1 (text "the delimiter must be a single character")
  if !byField && isGiven options 'd' then
    misused 1 (text "an input delimiter may be specified only when operating on fields")
  if !byField && isGiven options 's' then
    misused 1 (text "suppressing non-delimited lines makes sense\n\tonly when operating on fields")
  let ranges ← match readRanges list with
    | .ok rs                => pure rs
    | .error .zero          =>
      misused 1 (text (if byField then "fields are numbered from 1" else "byte/character positions are numbered from 1"))
    | .error .decreasing    => misused 1 (text "invalid decreasing range")
    | .error .noEnds        => misused 1 (text "invalid range with no endpoint: -")
    | .error (.badValue v)  =>
      misused 1 (text (if byField then "invalid field value " else "invalid byte/character position ") ++ quoted v)
  let inverted := isGiven options '~'
  let chosen (i : Nat) : Bool := inRanges ranges i != inverted
  let starts (i : Nat) : Bool := chosen i && (!chosen (i - 1) || (!inverted && ranges.any fun r => r.1 == i && !(ranges.any
    fun q => q.1 < i && q.2.all fun n => i ≤ n)))
  let between := (given? options 'o').getD (if byField then [separator] else [])
  let shown (line : Text) : Option Text :=
    if byField then
      if !line.elem separator then (if isGiven options 's' then none else some line)
      else some (joinWith between ((splitOn separator line).zipIdx.filterMap fun (f, i) =>
        if chosen (i + 1) then some f else none))
    else some (joinWith between (keptRuns chosen starts line))
  for file in if files.isEmpty then [['-']] else files do
    match ← readSource file with
    | .ok t    => print ((keptParts mark t).flatMap fun l =>
        match shown (barePart mark l) with
        | some l => l ++ [mark]
        | none   => [])
    | .error e => do
      blame (aboutFile file e)
      setCode 1

/-! ## Side by side -/

/-- The marks that a list spells; a mark may be empty. -/
def pasteMarks : Text → List Text
  | '\\' :: 'n' :: r  => ['\n'] :: pasteMarks r
  | '\\' :: 't' :: r  => ['\t'] :: pasteMarks r
  | '\\' :: '0' :: r  => [] :: pasteMarks r
  | '\\' :: 'b' :: r  => ['\x08'] :: pasteMarks r
  | '\\' :: 'f' :: r  => ['\x0c'] :: pasteMarks r
  | '\\' :: 'r' :: r  => ['\r'] :: pasteMarks r
  | '\\' :: 'v' :: r  => ['\x0b'] :: pasteMarks r
  | '\\' :: c :: r    => [c] :: pasteMarks r
  | c :: r            => [c] :: pasteMarks r
  | []                => []

/-- Texts with marks between them, which are taken in turn. -/
def joinInTurn (marks : List Text) (ts : List Text) : Text :=
  (ts.zipIdx.flatMap fun (t, i) => t ++ if i + 1 < ts.length then marks.getD (i % max marks.length 1) [] else [])

/-- Print the lines of files side by side, or those of each file in one line. -/
def paste : Tool := Job.tool fun args => do
  let spec : OptionSpec :=
    { flags := "sz", valued := "d", optional := "", inOrder := false
      long := [("delimiters", 'd'), ("serial", 's'), ("zero-terminated", 'z')] }
  let (options, files) ← takeOptions 1 spec args
  let files := if files.isEmpty then [['-']] else files
  let marks := match (given? options 'd').map pasteMarks with
    | none    => [['\t']]
    | some [] => [[]]
    | some ms => ms
  if ((given? options 'd').map fun d => d.reverse.takeWhile (· == '\\')).any fun b => b.length % 2 == 1 then
    quitWith 1 (text "delimiter list ends with an unescaped backslash: " ++ (given? options 'd').getD [])
  let mark := if isGiven options 'z' then '\x00' else '\n'
  let lines (t : Text) : List Text := (keptParts mark t).map (barePart mark)
  if isGiven options 's' then
    for file in files do
      match ← readSource file with
      | .ok t    => print (joinInTurn marks (lines t) ++ [mark])
      | .error e => do
        blame (aboutFile file e)
        setCode 1
  else do
    -- The input may be named several times, and its lines are then dealt out in turn.
    let dashes := (files.filter (· == ['-'])).length
    let mut columns := []
    let mut seen := 0
    let input ← if 0 < dashes then takeInput else pure []
    for file in files do
      if file = ['-'] then do
        columns := columns ++ [(lines input).zipIdx.filterMap fun (l, i) => if i % dashes = seen then some l else none]
        seen := seen + 1
      else match ← readSource file with
        | .ok t    => columns := columns ++ [lines t]
        | .error e => quitWith 1 (aboutFile file e)
    let rows := columns.foldl (fun n c => max n c.length) 0
    print ((List.range rows).flatMap fun i => joinInTurn marks (columns.map fun c => c.getD i []) ++ [mark])

/-! ## Sorted files -/

/-- The lines of two files, each with the column in which it is shown. `fuel` bounds their number. -/
def commLines : Nat → List Text → List Text → List (Nat × Text)
  | 0,        _,       _       => []
  | _ + 1,    [],      bs      => bs.map fun b => (2, b)
  | _ + 1,    as,      []      => as.map fun a => (1, a)
  | fuel + 1, a :: as, b :: bs =>
    match compareTexts a b with
    | .lt => (1, a) :: commLines fuel as (b :: bs)
    | .gt => (2, b) :: commLines fuel (a :: as) bs
    | .eq => (3, a) :: commLines fuel as bs

/-- The lines are in order. -/
def inOrder (ls : List Text) : Bool := (ls.zip (ls.drop 1)).all fun (a, b) => compareTexts a b != .gt

/-- Print the lines that two sorted files have in common, and those that only one has. -/
def comm : Tool := Job.prompt fun args => do
  let spec : OptionSpec :=
    { flags := "123z#c!", valued := "o", optional := "", inOrder := false
      long := [("output-delimiter", 'o'), ("zero-terminated", 'z'), ("total", '#'), ("check-order", 'c'),
        ("nocheck-order", '!')] }
  let (options, files) ← takeOptions 1 spec args
  match files with
  | [a, b]              => do
    let mark := if isGiven options 'z' then '\x00' else '\n'
    let lines (file : Text) : Job (List Text) := do
      match ← readSource file with
      | .ok t    => return (keptParts mark t).map (barePart mark)
      | .error e => quitWith 1 (aboutFile file e)
    let as ← lines a
    let bs ← lines b
    let between := (given? options 'o').getD ['\t']
    let hidden (k : Nat) : Bool := isGiven options (Char.ofNat (0x30 + k))
    let found := commLines (as.length + bs.length + 1) as bs
    for (k, l) in found do
      if !hidden k then
        print (((List.range' 1 (k - 1)).flatMap fun j => if hidden j then [] else between) ++ l ++ [mark])
    if isGiven options '#' then
      let count (k : Nat) : Text := ofNat (found.countP fun e => e.1 == k)
      print (count 1 ++ between ++ count 2 ++ between ++ count 3 ++ between ++ text "total" ++ [mark])
    if !isGiven options '!' then do
      let mixed := found.any fun e => e.1 != 3
      if mixed || isGiven options 'c' then do
        for (k, ls) in [("1", as), ("2", bs)] do
          if !inOrder ls then do
            blame (text "file " ++ text k ++ text " is not in sorted order")
            setCode 1
        if !inOrder as || !inOrder bs then blame (text "input is not in sorted order")
  | []                  => misused 1 (text "missing operand")
  | [a]                 => misused 1 (text "missing operand after " ++ quoted a)
  | _ :: _ :: extra :: _ => misused 1 (text "extra operand " ++ quoted extra)

/-- How lines are joined. -/
structure JoinPlan where
  separator : Option Char
  fields : Nat × Nat
  /-- Lines of a file without a partner are shown. -/
  alone : Nat → Bool
  paired : Bool
  empty : Text
  format : Option (List (Nat × Nat))
  folds : Bool

namespace JoinPlan

/-- The fields of a line. -/
def split (p : JoinPlan) (line : Text) : List Text :=
  match p.separator with
  | some c => splitOn c line
  | none   => (splitOn ' ' (line.map fun c => if isGap c then ' ' else c)).filter fun f => !f.isEmpty

/-- The field by which a line is joined. -/
def key (p : JoinPlan) (side : Nat) (line : List Text) : Text :=
  let k := line.getD ((if side = 1 then p.fields.1 else p.fields.2) - 1) []
  if p.folds then k.map Char.toUpper else k

/-- A joined line. -/
def shown (p : JoinPlan) (a b : Option (List Text)) : Text :=
  let between := [p.separator.getD ' ']
  let filled (t : Text) : Text := if t.isEmpty then p.empty else t
  let line (side : Nat) : Option (List Text) := if side = 1 then a else b
  let field (side : Nat) : Nat := (if side = 1 then p.fields.1 else p.fields.2) - 1
  let joinField : Text := match a, b with
    | some l, _      => l.getD (field 1) []
    | none,   some l => l.getD (field 2) []
    | _,      _      => []
  match p.format with
  | some places =>
    joinWith between (places.map fun (side, n) =>
      if side = 0 then filled joinField else filled (((line side).getD []).getD (n - 1) []))
  | none        =>
    let others (side : Nat) : List Text := ((line side).getD []).eraseIdx (field side)
    joinWith between (filled joinField :: (others 1 ++ others 2).map filled)

end JoinPlan

/-- The joined lines of two sorted files. `fuel` bounds the groups. -/
def joinLines (p : JoinPlan) : Nat → List (List Text) → List (List Text) → List Text
  | 0,        _,       _       => []
  | _ + 1,    [],      bs      => if p.alone 2 then bs.map fun b => p.shown none (some b) else []
  | _ + 1,    as,      []      => if p.alone 1 then as.map fun a => p.shown (some a) none else []
  | fuel + 1, a :: as, b :: bs =>
    match compareTexts (p.key 1 a) (p.key 2 b) with
    | .lt => (if p.alone 1 then [p.shown (some a) none] else []) ++ joinLines p fuel as (b :: bs)
    | .gt => (if p.alone 2 then [p.shown none (some b)] else []) ++ joinLines p fuel (a :: as) bs
    | .eq =>
      let same (side : Nat) (l : List Text) : Bool := p.key side l == p.key 1 a
      let xs := (a :: as).takeWhile (same 1)
      let ys := (b :: bs).takeWhile (same 2)
      (if p.paired then xs.flatMap fun x => ys.map fun y => p.shown (some x) (some y) else []) ++
        joinLines p fuel ((a :: as).drop xs.length) ((b :: bs).drop ys.length)

/-- Join the lines of two sorted files by a field. -/
def join : Tool := Job.tool fun args => do
  let spec : OptionSpec :=
    { flags := "iz", valued := "12jtavoe", optional := "", inOrder := false
      long := [("ignore-case", 'i'), ("zero-terminated", 'z')] }
  let (options, files) ← takeOptions 1 spec args
  match files with
  | [a, b]               => do
    let number (c : Char) : Option Nat := ((given? options c).or (given? options 'j')).bind digitsValue?
    let asked (c : Char) (side : Nat) : Bool := options.any fun o => o.1 == c && o.2 == ofNat side
    let place (t : Text) : Nat × Nat :=
      match splitOn '.' t with
      | [f, n] => ((digitsValue? f).getD 0, (digitsValue? n).getD 1)
      | _      => (0, 0)
    let plan : JoinPlan :=
      { separator := (given? options 't').bind List.head?
        fields := ((number '1').getD 1, (number '2').getD 1)
        alone := fun side => asked 'a' side || asked 'v' side
        paired := !isGiven options 'v'
        empty := (given? options 'e').getD []
        format := (given? options 'o').map fun f =>
          ((splitOn ',' (f.map fun c => if isGap c then ',' else c)).filter fun p => !p.isEmpty).map place
        folds := isGiven options 'i' }
    let mark := if isGiven options 'z' then '\x00' else '\n'
    let lines (file : Text) : Job (List (List Text)) := do
      match ← readSource file with
      | .ok t    => return (keptParts mark t).map fun l => plan.split (barePart mark l)
      | .error e => quitWith 1 (aboutFile file e)
    let as ← lines a
    let bs ← lines b
    print ((joinLines plan (as.length + bs.length + 1) as bs).flatMap fun l => l ++ [mark])
  | []                   => misused 1 (text "missing operand")
  | [a]                  => misused 1 (text "missing operand after " ++ quoted a)
  | _ :: _ :: extra :: _ => misused 1 (text "extra operand " ++ quoted extra)

end JavaMend.Host
