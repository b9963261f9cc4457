import JavaMend.Host.Options
import JavaMend.Text.Numerals

/-!
# `Host.Streams.Lines` — tools that select and reorder lines

## Contents
- **Quantities.** `readQuantity?`, `readSigned?`.
- **Copying.** `cat`, `tac`, `rev`, `tee`.
- **Ends of files.** `head`, `tail`.
- **Neighbours.** `uniq`.
- **Numbers.** `nl`.
-/

namespace JavaMend.Host

open JavaMend Text

/-! ## Quantities -/

/-- What the letters after a number multiply it with. -/
def multiplier? (suffix : Text) : Option Nat :=
  let power (base : Nat) (c : Char) : Option Nat :=
    ((text "KMGTPEZY").findIdx? (· == c.toUpper)).map fun i => Nat.pow base (i + 1)
  match suffix with
  | []            => some 1
  | ['b']         => some 512
  | [c]           => power 1024 c
  | [c, 'B']      => power 1000 c
  | [c, 'i', 'B'] => power 1024 c
  | _             => none

/-- A number that letters may multiply. -/
def readQuantity? (t : Text) : Option Nat := do
  let digits := t.takeWhile isAsciiDigit
  return (← digitsValue? digits) * (← multiplier? (t.drop digits.length))

/-- A number after an optional sign, with the sign. -/
def readSigned? (t : Text) : Option (Option Char × Nat) :=
  match t with
  | '-' :: r => (readQuantity? r).map fun n => (some '-', n)
  | '+' :: r => (readQuantity? r).map fun n => (some '+', n)
  | r        => (readQuantity? r).map fun n => (none, n)

/-- A word with blanks before it, at least so wide. -/
def padLeft (width : Nat) (t : Text) : Text := List.replicate (width - t.length) ' ' ++ t

/-- A word with blanks after it, at least so wide. -/
def padRight (width : Nat) (t : Text) : Text := t ++ List.replicate (width - t.length) ' '

/-! ## Copying -/

/-- A character made visible: control characters with a caret, bytes above 127 after `M-`. -/
def visible (c : Char) : Text :=
  if c = '\n' ∨ c = '\t' then [c]
  else
    let low (n : Nat) : Text :=
      if n < 32 then ['^', Char.ofNat (n + 64)] else if n = 127 then text "^?" else [Char.ofNat n]
    if c.toNat < 128 then low c.toNat else text "M-" ++ low (c.toNat - 128)

/-- A line as `cat` shows it. -/
def shownLine (options : Options) (line : Text) : Text :=
  let body := barePart '\n' line
  let body := if isGiven options 'v' then body.flatMap visible else body
  let body := if isGiven options 'T' then body.flatMap fun c => if c = '\t' then text "^I" else [c] else body
  let mark := if isGiven options 'E' then ['$'] else []
  if line.getLast? = some '\n' then body ++ mark ++ ['\n'] else body

/-- Lines without all but the first of blank ones that follow one another. -/
def squeezeBlank : Bool → List Text → List Text
  | _,     []      => []
  | after, l :: ls =>
    if l = ['\n'] then (if after then squeezeBlank true ls else l :: squeezeBlank true ls)
    else l :: squeezeBlank false ls

/-- Lines as they are shown, with numbers before them from `n` on; blank ones may have none. -/
def numberLines (blankToo : Bool) (show_ : Text → Text) : Nat → List Text → List Text
  | _, []      => []
  | n, l :: ls =>
    if l = ['\n'] ∧ !blankToo then show_ l :: numberLines blankToo show_ n ls
    else (padLeft 6 (ofNat n) ++ '\t' :: show_ l) :: numberLines blankToo show_ (n + 1) ls

/-- The options of `cat`; some letters stand for several others. -/
def catOptions : OptionSpec where
  flags := "AbeEnstTuv"
  valued := ""
  optional := ""
  long := [("number-nonblank", 'b'), ("number", 'n'), ("squeeze-blank", 's'), ("show-nonprinting", 'v'),
    ("show-ends", 'E'), ("show-tabs", 'T'), ("show-all", 'A')]
  inOrder := false

/-- Copy. -/
def cat : Tool := Job.prompt fun args => do
  let (given, files) ← takeOptions 1 catOptions args
  let options := given.flatMap fun (c, v) => match c with
    | 'A' => [('v', v), ('E', v), ('T', v)]
    | 'e' => [('v', v), ('E', v)]
    | 't' => [('v', v), ('T', v)]
    | 'u' => []
    | c   => [(c, v)]
  if options.isEmpty then
    for file in if files.isEmpty then [['-']] else files do
      match ← readSource file with
      | .ok t    => print t
      | .error e => do
        blame (aboutFile file e)
        setCode 1
  else do
    let contents ← readSources 1 aboutFile files
    let lines := keptLines (contents.flatMap (·.2))
    let lines := if isGiven options 's' then squeezeBlank false lines else lines
    let lines :=
      if isGiven options 'b' then numberLines false (shownLine options) 1 lines
      else if isGiven options 'n' then numberLines true (shownLine options) 1 lines
      else lines.map (shownLine options)
    print lines.flatten

/-- The parts of a text that a separator ends, with their ends. -/
def partsWith (separator : Text) (before : Bool) : Nat → Text → Text → List Text
  | 0,        part, t => [part.reverse ++ t]
  | fuel + 1, part, t =>
    match t with
    | []     => if part.isEmpty then [] else [part.reverse]
    | c :: r =>
      match dropPrefix? separator t with
      | none      => partsWith separator before fuel (c :: part) r
      | some rest =>
        if before then
          let later := partsWith separator before fuel separator.reverse rest
          if part.isEmpty then later else part.reverse :: later
        else (part.reverse ++ separator) :: partsWith separator before fuel [] rest

/-- Copy the lines of each file from last to first. -/
def tac : Tool := Job.tool fun args => do
  let spec : OptionSpec :=
    { flags := "br", valued := "s", optional := "", inOrder := false
      long := [("before", 'b'), ("regex", 'r'), ("separator", 's')] }
  let (options, files) ← takeOptions 1 spec args
  let complaint (file : Text) (e : PathFault) : Text :=
    if e = .isFolder then shown file ++ text ": read error: Invalid argument"
    else text "failed to open " ++ quoted file ++ text " for reading: " ++ e.message
  for (_, t) in ← readSources 1 complaint files do
    let separator := match given? options 's' with
      | some [] => ['\x00']
      | some s  => s
      | none    => ['\n']
    print (partsWith separator (isGiven options 'b') (t.length + 1) [] t).reverse.flatten

/-- A line backwards; its end stays at the end. -/
def reverseLine (line : Text) : Text :=
  if line.getLast? = some '\n' then line.dropLast.reverse ++ ['\n'] else line.reverse

/-- Copy every line backwards. -/
def rev : Tool := Job.tool fun args => do
  let files := args.filter fun a => a != text "--"
  for file in if files.isEmpty then [['-']] else files do
    match ← if files.isEmpty then readSource file else readPath file with
    | .ok t    => print ((keptLines t).flatMap reverseLine)
    | .error e => do
      complain (text "rev: cannot open " ++ file ++ text ": " ++ e.message)
      setCode 1

/-- Copy the input to the output and to files. -/
def tee : Tool := Job.prompt fun args => do
  let spec : OptionSpec :=
    { flags := "aip", valued := "", optional := "", inOrder := false
      long := [("append", 'a'), ("ignore-interrupts", 'i')] }
  let (options, files) ← takeOptions 1 spec args
  let t ← takeInput
  for file in files do
    let old ← if isGiven options 'a' then readPath file else pure (.ok [])
    if let some e ← writePath file (old.toOption.getD [] ++ t) then do
      blame (aboutFile file e)
      setCode 1
  print t

/-! ## Ends of files -/

/-- A number of lines or bytes, with its sign. -/
structure Extent where
  ofBytes : Bool
  sign : Option Char
  count : Nat

/-- The extent that options ask for; ten lines if there is none. -/
def takeExtent (options : Options) : Job Extent := do
  match options.reverse.find? fun o => o.1 == 'n' || o.1 == 'c' with
  | none        => return ⟨false, none, 10⟩
  | some (c, v) =>
    match readSigned? v with
    | some (sign, n) => return ⟨c == 'c', sign, n⟩
    | none           =>
      quitWith 1 (text "invalid number of " ++ text (if c = 'c' then "bytes" else "lines") ++ text ": " ++ quoted v)

/-- The old spelling of an extent in the first argument: a sign and a number, perhaps with letters. -/
def withExtent (args : List Text) : List Text :=
  match args with
  | ('-' :: d :: r) :: more =>
    if isAsciiDigit d then
      let digits := (d :: r).takeWhile isAsciiDigit
      let letters := (d :: r).drop digits.length
      let unit := if letters.any (· == 'c') then text "-c" else text "-n"
      let quiet := (letters.filter fun c => c == 'q' || c == 'v' || c == 'z').map fun c => ['-', c]
      if letters.all fun c => c ∈ text "clqvz" then unit :: digits :: quiet ++ more else args
    else args
  | ('+' :: d :: r) :: more =>
    let digits := (d :: r).takeWhile isAsciiDigit
    let letters := (d :: r).drop digits.length
    if !digits.isEmpty && more.length ≤ 1 && letters ∈ [[], ['c'], ['l']] then
      (if letters = ['c'] then text "-c" else text "-n") :: ('+' :: digits) :: more
    else args
  | _                       => args

/-- The options of `head` and `tail`. -/
def extentOptions (flags : String) (long : List (String × Char)) : OptionSpec where
  flags := flags
  valued := "nc"
  optional := ""
  long := [("lines", 'n'), ("bytes", 'c'), ("quiet", 'q'), ("silent", 'q'), ("verbose", 'v'), ("zero-terminated", 'z')]
    ++ long
  inOrder := false

/-- Show a part of each file, after its name if there are several. -/
def showParts (options : Options) (files : List Text) (part : Text → Text → Job Unit) : Job Unit := do
  let files := if files.isEmpty then [['-']] else files
  let named := isGiven options 'v' || (1 < files.length && !isGiven options 'q')
  let mut first := true
  for file in files do
    let name := if file = ['-'] then text "standard input" else file
    let header (first : Bool) : Job Unit :=
      if named then print ((if first then [] else ['\n']) ++ text "==> " ++ name ++ text " <==\n") else return
    match ← readSource file with
    | .ok t            => do
      header first
      first := false
      part file t
    | .error .isFolder => do
      header first
      first := false
      blame (text "error reading " ++ quoted name ++ text ": Is a directory")
      setCode 1
    | .error e         => do
      blame (text "cannot open " ++ quoted file ++ text " for reading: " ++ e.message)
      setCode 1

/-- Print the first lines or bytes; a dash before their number tells how many are left out at the end. -/
def head : Tool := Job.tool fun args => do
  let (options, files) ← takeOptions 1 (extentOptions "qvz" []) (withExtent args)
  let extent ← takeExtent options
  let mark := if isGiven options 'z' then '\x00' else '\n'
  showParts options files fun file t => do
    let shown :=
      if extent.ofBytes then
        if extent.sign = some '-' then t.take (t.length - extent.count) else t.take extent.count
      else
        let lines := keptParts mark t
        (if extent.sign = some '-' then lines.take (lines.length - extent.count) else lines.take extent.count).flatten
    print shown
    if file = ['-'] then leaveInput (if extent.ofBytes then 1 else 8192) t shown.length

/-- Print the last lines or bytes; a plus sign before their number tells with which they start. -/
def tail : Tool := Job.tool fun args => do
  let spec := extentOptions "qvzfF" [("follow", 'f'), ("retry", 'F')]
  let (options, files) ← takeOptions 1 { spec with valued := "ncs", long := spec.long ++ [("sleep-interval", 's')] }
    (withExtent args)
  let extent ← takeExtent options
  let mark := if isGiven options 'z' then '\x00' else '\n'
  let part {α : Type} (xs : List α) : List α :=
    if extent.sign = some '+' then xs.drop (extent.count - 1) else xs.drop (xs.length - extent.count)
  showParts options files fun _ t =>
    print (if extent.ofBytes then part t else (part (keptParts mark t)).flatten)
  -- What is added to a file would be shown too, without end.
  if (isGiven options 'f' || isGiven options 'F') && files.any fun f => f != ['-'] then throw .endless

/-! ## Neighbours -/

/-- What counts of a line when it is compared with its neighbours: without fields and characters at its start. -/
def comparedPart (fields chars : Nat) (width : Option Nat) (folds : Bool) (line : Text) : Text :=
  let skipField (t : Text) : Text :=
    (t.dropWhile fun c => c == ' ' || c == '\t').dropWhile fun c => c != ' ' && c != '\t'
  let rest := ((List.range fields).foldl (fun t _ => if t.isEmpty then t else skipField t) line).drop chars
  let rest := match width with
    | some n => rest.take n
    | none   => rest
  if folds then rest.map Char.toUpper else rest

/-- Group neighbours with the same key. -/
def groupSame {α β : Type} [BEq β] (key : α → β) : List α → List (List α)
  | []      => []
  | x :: xs =>
    match groupSame key xs with
    | (y :: ys) :: gs => if key x == key y then (x :: y :: ys) :: gs else [x] :: (y :: ys) :: gs
    | gs              => [x] :: gs

/-- The groups are the whole list. -/
theorem flatten_groupSame {α β : Type} [BEq β] (key : α → β) (xs : List α) : (groupSame key xs).flatten = xs := by
  induction xs with
  | nil => rfl
  | cons x xs ih =>
    unfold groupSame
    split
    · rename_i h
      split <;> simpa [h] using ih
    · simp [ih]

/-- Print one of neighbouring lines that are the same. -/
def uniq : Tool := Job.tool fun args => do
  let spec : OptionSpec :=
    { flags := "cdDiuz", valued := "fsw", optional := "", inOrder := false
      long := [("count", 'c'), ("repeated", 'd'), ("all-repeated", 'D'), ("ignore-case", 'i'), ("unique", 'u'),
        ("skip-fields", 'f'), ("skip-chars", 's'), ("check-chars", 'w'), ("zero-terminated", 'z')] }
  let (options, operands) ← takeOptions 1 spec args
  let number (c : Char) (what : String) : Job (Option Nat) := do
    match given? options c with
    | none   => return none
    | some v =>
      match readQuantity? v with
      | some n => return some n
      | none   => quitWith 1 (v ++ text ": invalid number of " ++ text what)
  let fields ← number 'f' "fields to skip"
  let chars ← number 's' "bytes to skip"
  let width ← number 'w' "bytes to compare"
  if let _ :: _ :: extra :: _ := operands then misused 1 (text "extra operand " ++ quoted extra)
  let mark := if isGiven options 'z' then '\x00' else '\n'
  match ← readSource (operands.head?.getD ['-']) with
  | .error e => quitWith 1 (aboutFile (operands.head?.getD []) e)
  | .ok t    => do
    let key := comparedPart (fields.getD 0) (chars.getD 0) width (isGiven options 'i')
    let groups := groupSame key ((keptParts mark t).map (barePart mark))
    let wanted (n : Nat) : Bool :=
      (!isGiven options 'd' && !isGiven options 'D' || 1 < n) && (!isGiven options 'u' || n == 1)
    let lines := groups.flatMap fun g =>
      if !wanted g.length then []
      else if isGiven options 'D' then g
      else g.take 1 |>.map fun l => if isGiven options 'c' then padLeft 7 (ofNat g.length) ++ ' ' :: l else l
    let output := lines.flatMap fun l => l ++ [mark]
    match operands with
    | [_, target] =>
      if target = ['-'] then print output
      else if let some e ← writePath target output then quitWith 1 (aboutFile target e)
    | _           => print output

/-! ## Numbers -/

/-- How lines are numbered. -/
structure Numbering where
  /-- Which lines have numbers in the header, in the body and in the footer. -/
  styles : List Text
  first : Int
  step : Int
  width : Nat
  format : Text
  separator : Text

/-- A number in its place. -/
def Numbering.shown (n : Numbering) (i : Int) : Text :=
  let number := ofInt i
  if n.format = text "ln" then padRight n.width number
  else if n.format = text "rz" then
    if i < 0 then '-' :: (List.replicate (n.width - number.length) '0' ++ ofNat i.natAbs)
    else List.replicate (n.width - number.length) '0' ++ number
  else padLeft n.width number

/-- Lines with numbers; `style` tells which lines have one, and `restart` starts a page. -/
def Numbering.apply (n : Numbering) (fits : Text → Text → Bool) : Text → Int → List Text → List Text
  | _,     _, []      => []
  | style, i, l :: ls =>
    let section? : Option (Nat × Bool) :=
      if l = text "\\:\\:\\:" then some (0, true)
      else if l = text "\\:\\:" then some (1, true)
      else if l = text "\\:" then some (2, true)
      else none
    match section? with
    | some (k, _) => [] :: n.apply fits (n.styles.getD k []) (if k = 0 then n.first else i) ls
    | none        =>
      if fits style l then (n.shown i ++ n.separator ++ l) :: n.apply fits style (i + n.step) ls
      else (List.replicate (n.width + n.separator.length) ' ' ++ l) :: n.apply fits style i ls

/-- Print lines with their numbers. -/
def nl : Tool := Job.tool fun args => do
  let spec : OptionSpec :=
    { flags := "p", valued := "bfhviwsnld", optional := "", inOrder := false
      long := [("body-numbering", 'b'), ("footer-numbering", 'f'), ("header-numbering", 'h'),
        ("starting-line-number", 'v'), ("line-increment", 'i'), ("number-width", 'w'), ("number-separator", 's'),
        ("number-format", 'n'), ("no-renumber", 'p')] }
  let (options, files) ← takeOptions 1 spec args
  let style (c : Char) (usual : String) : Text := (given? options c).getD (text usual)
  let numbering : Numbering :=
    { styles := [style 'h' "n", style 'b' "t", style 'f' "n"]
      first := ((given? options 'v').bind readInt?).getD 1
      step := ((given? options 'i').bind readInt?).getD 1
      width := ((given? options 'w').bind readQuantity?).getD 6
      format := (given? options 'n').getD (text "rn")
      separator := (given? options 's').getD ['\t'] }
  let fits (style line : Text) : Bool := style == ['a'] || (style == ['t'] && !line.isEmpty)
  let contents ← readSources 1 aboutFile files
  let lines := bareLines (contents.flatMap (·.2))
  print (endLines (numbering.apply fits (style 'b' "t") numbering.first lines))

end JavaMend.Host
