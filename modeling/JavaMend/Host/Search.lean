import JavaMend.Host.Pattern.Glob
import JavaMend.Host.Pattern.Reader
import JavaMend.Host.Streams.Lines

/-!
# `Host.Search` — looking for lines

The lines of files in which one of several patterns matches are shown, with what stands around them and where they are.

## Contents
- **Patterns.** `Wanted`, `Wanted.find?`, `Wanted.isIn`, `Wanted.parts`.
- **What is shown.** `Showing`, `Selected`, `Showing.lines`.
- **Files.** `filesToSearch`.
- **The tool.** `grep`.
-/

namespace JavaMend.Host

open JavaMend Text

/-! ## Patterns -/

/-- Where a match has to lie. -/
inductive Extension where
  | anywhere
  /-- No word goes on before or after it. -/
  | words
  | wholeLine
deriving DecidableEq

/-- What is looked for. -/
structure Wanted where
  patterns : List Re
  extension : Extension
  folds : Bool

namespace Wanted

/-- A line as it is searched. -/
def haystack (w : Wanted) (line : Text) : Haystack := ⟨line.toArray, w.folds, false⟩

/-- The longest match that starts at a position. -/
def matchAt? (w : Wanted) (h : Haystack) (i : Nat) : Option (Nat × Nat) :=
  let mayStart := match w.extension with
    | .anywhere  => true
    | .words     => !h.afterWord i
    | .wholeLine => i == 0
  let mayEnd (j : Nat) : Bool := match w.extension with
    | .anywhere  => true
    | .words     => !h.inWord j
    | .wholeLine => j == h.chars.size
  if !mayStart then none
  else (w.patterns.filterMap fun re => (re.matchAt? h i mayEnd).map fun m => m.stop).foldl
    (fun best j => some (match best with
      | some (_, k) => (i, max j k)
      | none        => (i, j))) none

/-- The first match from a position on. -/
def find? (w : Wanted) (h : Haystack) (i : Nat) : Option (Nat × Nat) :=
  (List.range' i (h.chars.size + 1 - i)).findSome? (w.matchAt? h)

/-- There is a match in a line. -/
def isIn (w : Wanted) (line : Text) : Bool := (w.find? (w.haystack line) 0).isSome

/-- The parts of a line that match, from a position on; an empty match is none. `fuel` bounds their number. -/
def parts (w : Wanted) (h : Haystack) : Nat → Nat → List (Nat × Nat)
  | 0,        _ => []
  | fuel + 1, i =>
    match w.find? h i with
    | none        => []
    | some (a, b) => if a = b then parts w h fuel (b + 1) else (a, b) :: parts w h fuel b

end Wanted

/-! ## What is shown -/

/-- How lines are shown. -/
structure Showing where
  /-- The lines without a match are looked for. -/
  inverted : Bool
  /-- Only the parts that match are shown. -/
  partsOnly : Bool
  numbered : Bool
  offsets : Bool
  before : Nat
  after : Nat
  limit : Option Nat
  mark : Char
  /-- What stands between a name and what follows it. -/
  nameEnd : Option Char

/-- A line with its number and the position of its first byte. -/
structure Located where
  line : Text
  number : Nat
  offset : Nat
  hit : Bool

/-- Lines with their numbers and positions. -/
def located (w : Wanted) (inverted : Bool) : Nat → Nat → List Text → List Located
  | _,      _,      []      => []
  | number, offset, l :: ls =>
    ⟨l, number, offset, w.isIn l != inverted⟩ :: located w inverted (number + 1) (offset + l.length + 1) ls

/-- The lines up to the last hit that counts. -/
def limited (s : Showing) (ls : List Located) : List Located :=
  match s.limit with
  | none   => ls
  | some n =>
    (ls.foldl (fun (kept, left) l =>
      if left = 0 then (kept, left) else (l :: kept, if l.hit then left - 1 else left))
      (([] : List Located), n)).1.reverse

/-- What stands before a line. -/
def Showing.header (s : Showing) (name : Option Text) (mark : Char) (number offset : Nat) : Text :=
  (match name with
    | some n => n ++ [s.nameEnd.getD mark]
    | none   => []) ++
  (if s.numbered then ofNat number ++ [mark] else []) ++ if s.offsets then ofNat offset ++ [mark] else []

/-- The lines that are shown: those hit, and those around them. A row of them that does not follow the one before comes
    after a separator. -/
def Showing.lines (s : Showing) (w : Wanted) (name : Option Text) (all : List Located) (trailing : List Located) : Text :=
  let ls := (all ++ trailing).toArray
  let count := all.length
  let isHit (i : Nat) : Bool := i < count && (ls[i]?).any fun l => l.hit
  let near (i : Nat) : Bool :=
    (List.range (s.after + 1)).any (fun d => d ≤ i && isHit (i - d)) ||
      (List.range (s.before + 1)).any fun d => isHit (i + d)
  let context := s.before + s.after != 0
  let one (i : Nat) (l : Located) : Text :=
    let mark := if isHit i then ':' else '-'
    let header := s.header name mark l.number
    if s.partsOnly then
      if s.inverted || !isHit i then []
      else
        let h := w.haystack l.line
        (w.parts h (l.line.length + 1) 0).flatMap fun (a, b) =>
          s.header name mark l.number (l.offset + a) ++ h.part a b ++ [s.mark]
    else header l.offset ++ l.line ++ [s.mark]
  let rec go : Nat → List Located → Option Nat → List Text
    | _, [],      _    => []
    | i, l :: ls, last =>
      if near i then
        let gap := context && last.any fun j => j + 1 < i
        (if gap then text "--\n" else []) :: one i l :: go (i + 1) ls (some i)
      else go (i + 1) ls last
  (go 0 (all ++ trailing) none).flatten

/-! ## Files -/

/-- A file to be searched: its path as it is shown, and what stands in it. -/
abbrev Searched := Text × Except PathFault Text

/-- The files below a folder, each with its path. -/
def filesIn (d : Disk) (p : Place) (path : Text) : List (List Text × Text × Text) :=
  (d.filesBelow p).map fun (names, data) =>
    (names, Disk.joinPath path (argumentOf (joinWith ['/'] names)), ofBytes data)

/-- The options of `grep`. -/
def grepOptions : OptionSpec where
  flags := "EFGPivwxclLoqsnHhbTZzaIUrRy"
  valued := "efmABCdD123"
  optional := "4"
  long := [("extended-regexp", 'E'), ("fixed-strings", 'F'), ("basic-regexp", 'G'), ("perl-regexp", 'P'), ("regexp", 'e'),
    ("file", 'f'), ("ignore-case", 'i'), ("word-regexp", 'w'), ("line-regexp", 'x'), ("invert-match", 'v'),
    ("count", 'c'), ("files-with-matches", 'l'), ("files-without-match", 'L'), ("max-count", 'm'),
    ("only-matching", 'o'), ("quiet", 'q'), ("silent", 'q'), ("no-messages", 's'), ("line-number", 'n'),
    ("with-filename", 'H'), ("no-filename", 'h'), ("byte-offset", 'b'), ("null", 'Z'), ("null-data", 'z'),
    ("text", 'a'), ("recursive", 'r'), ("dereference-recursive", 'R'), ("after-context", 'A'),
    ("before-context", 'B'), ("context", 'C'), ("include", '1'), ("exclude", '2'), ("exclude-dir", '3'),
    ("color", '4'), ("colour", '4'), ("directories", 'd')]
  inOrder := false

/-- The arguments, with a bare number for a context spelled out. -/
def withContext (args : List Text) : List Text :=
  args.map fun a => match a with
    | '-' :: d :: r => if (d :: r).all isAsciiDigit then '-' :: 'C' :: d :: r else a
    | a             => a

/-! ## The tool -/

/-- Refuse arguments and tell how they look. -/
def grepUsage {α : Type} : Job α := do
  complain (text "Usage: grep [OPTION]... PATTERNS [FILE]...\nTry 'grep --help' for more information.")
  quit 2

/-- The brackets of a class stand where a set is meant. -/
def isBareClass (t : Text) : Bool :=
  match t with
  | '[' :: c :: r => (c == ':' || c == '=' || c == '.') && (r.dropLast.getLast? == some c) && r.getLast? == some ']' && 3 ≤ r.length
  | _             => false

/-- One pattern, unless it is refused. -/
def takePattern (options : Options) (t : Text) : Job Re := do
  let kind := options.reverse.find? fun o => o.1 ∈ text "EFGP"
  if kind.any fun o => o.1 == 'F' then return literalRe t
  let extended := kind.any fun o => o.1 == 'E' || o.1 == 'P'
  if isBareClass t then quitWith 2 (text "character class syntax is [[:space:]], not [:space:]")
  match readReText ⟨extended, true⟩ t with
  | .ok (re, _) => return re
  | .error e    => quitWith 2 e.message

/-- Print the lines that match a pattern. -/
def grepWith (preset : List Text) : Tool := Job.tool fun args => do
  let (options, operands) ← match readOptions grepOptions (preset ++ withContext args) with
    | .ok found    => pure found
    | .error fault => do
      blame fault.message
      grepUsage
  let mut patterns : List Text := []
  let mut given := false
  for (c, v) in options do
    if c = 'e' then
      patterns := patterns ++ splitOn '\n' v
      given := true
    else if c = 'f' then
      match ← readSource v with
      | .ok t    => do
        patterns := patterns ++ bareLines t
        given := true
      | .error e => quitWith 2 (aboutFile v e)
  let (files, more) ← match given, operands with
    | true,  files      => pure (files, [])
    | false, p :: files => pure (files, splitOn '\n' p)
    | false, []         => grepUsage
  let res ← (patterns ++ more).mapM (takePattern options)
  let wanted : Wanted :=
    { patterns := res, folds := isGiven options 'i' || isGiven options 'y'
      extension := if isGiven options 'x' then .wholeLine else if isGiven options 'w' then .words else .anywhere }
  let number (c : Char) (complaint : Text → Text) : Job (Option Nat) := do
    match given? options c with
    | none   => return none
    | some v =>
      match readQuantity? v with
      | some n => return some n
      | none   => quitWith 2 (complaint v)
  let limit ← number 'm' fun _ => text "invalid max count"
  let badContext (v : Text) : Text := v ++ text ": invalid context length argument"
  let around ← number 'C' badContext
  let after ← number 'A' badContext
  let before ← number 'B' badContext
  let s ← read
  let recursive := isGiven options 'r' || isGiven options 'R'
  let files := if files.isEmpty then (if recursive then [['.']] else [['-']]) else files
  let disk ← diskNow
  let severalFiles :=
    1 < files.length || (recursive && files.any fun f => disk.leadsToFolder s.dir (pathOf f))
  let named :=
    match options.reverse.find? fun o => o.1 == 'H' || o.1 == 'h' with
    | some (c, _) => c == 'H'
    | none        => severalFiles
  let mark := if isGiven options 'z' then '\x00' else '\n'
  let showing : Showing :=
    { inverted := isGiven options 'v', partsOnly := isGiven options 'o', numbered := isGiven options 'n'
      offsets := isGiven options 'b', before := before.getD (around.getD 0), after := after.getD (around.getD 0)
      limit := limit, mark := mark, nameEnd := if isGiven options 'Z' then some '\x00' else none }
  let globs (c : Char) : List Glob := options.filterMap fun o => if o.1 = c then some (Glob.ofText o.2) else none
  let accepts (names : List Text) : Bool :=
    let name := names.getLast?.getD []
    (globs '1' == [] || (globs '1').any fun g => g.fits name) && !((globs '2').any fun g => g.fits name) &&
      !(names.dropLast.any fun n => (globs '3').any fun g => g.fits n)
  let mut searched : List Searched := []
  for file in files do
    let d ← diskNow
    match ← readSource file with
    | .ok t            =>
      searched := searched ++ [(if file = ['-'] then text "(standard input)" else file, .ok t)]
    | .error .isFolder =>
      if recursive then
        match d.find s.dir (pathOf file) with
        | .ok (p, _) =>
          let path := if operands.isEmpty || (files == [['.']] && operands.length ≤ 1) then [] else file
          searched := searched ++ ((filesIn d p path).filter fun f => accepts f.1).map fun f => (f.2.1, .ok f.2.2)
        | .error e   => searched := searched ++ [(file, .error e)]
      else searched := searched ++ [(file, .error .isFolder)]
    | .error e         => searched := searched ++ [(file, .error e)]
  let mut found := false
  let mut failed := false
  let mut separated := false
  for (name, content) in searched do
    match content with
    | .error e => do
      failed := true
      if !isGiven options 's' then blame (name ++ text ": " ++ e.message)
    | .ok t    => do
      let ls := located wanted showing.inverted 1 0 ((keptParts mark t).map (barePart mark))
      let kept := limited showing ls
      let hits := kept.countP fun l => l.hit
      let trailing := if limit.isSome then
          (ls.drop kept.length).take showing.after
        else []
      if 0 < hits then found := true
      let header := if named then name ++ [showing.nameEnd.getD ':'] else []
      if isGiven options 'q' then
        if found then quit 0
      else if isGiven options 'l' then
        if 0 < hits then print (name ++ [showing.nameEnd.getD '\n'])
      else if isGiven options 'L' then
        if hits = 0 then print (name ++ [showing.nameEnd.getD '\n'])
      else if isGiven options 'c' then print (header ++ ofNat hits ++ ['\n'])
      else if 0 < hits then
        if t.elem '\x00' && mark == '\n' && !isGiven options 'a' then
          blame (name ++ text ": binary file matches")
        else do
          let shown := showing.lines wanted (if named then some name else none) kept trailing
          if separated && showing.before + showing.after != 0 then print (text "--\n")
          separated := true
          print shown
      if limit.isSome && hits = limit.getD 0 && name = text "(standard input)" then
        leaveInput 32768 t ((kept.foldl (fun n l => n + l.line.length + 1) 0))
  setCode (if failed then 2 else if found then 0 else 1)

/-- Print the lines that match a pattern. -/
def grep : Tool := grepWith []

/-- Print the lines that match a pattern in the extended spelling. -/
def egrep : Tool := grepWith [text "-E"]

/-- Print the lines that hold a text. -/
def fgrep : Tool := grepWith [text "-F"]

end JavaMend.Host
