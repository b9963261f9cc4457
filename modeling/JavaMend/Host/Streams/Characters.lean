import JavaMend.Host.Number.Amount
import JavaMend.Host.Pattern.CharSet
import JavaMend.Host.Streams.Lines

/-!
# `Host.Streams.Characters` — tools on characters and columns

## Contents
- **Escapes.** `octal`, `EscapeForm`, `unescape`.
- **Sets.** `SetItem`, `readSet`, `CharMap`, `tr`.
- **Columns.** `fold`, `expand`, `unexpand`.
- **Counts.** `Counts`, `wc`.
-/

namespace JavaMend.Host

open JavaMend Text

/-! ## Escapes -/

/-- The byte with a number. -/
def byteChar (n : Nat) : Char := Char.ofNat (n % 256)

/-- The byte that at most `limit` octal digits stand for, and how many they are. -/
def octal (limit : Nat) (t : Text) : Char × Nat :=
  let digits := (t.take limit).takeWhile isOctal
  (byteChar (ofDigits 8 digits), digits.length)

/-- The character that a letter after a backslash stands for. -/
def escapeLetter? : Char → Option Char
  | 'a'  => some '\x07'
  | 'b'  => some '\x08'
  | 'f'  => some '\x0c'
  | 'n'  => some '\n'
  | 'r'  => some '\r'
  | 't'  => some '\t'
  | 'v'  => some '\x0b'
  | '\\' => some '\\'
  | _    => none

/-- What else stands in escapes. -/
structure EscapeForm where
  /-- An octal number has up to three digits, and a zero may come before them. -/
  direct : Bool
  /-- An octal number starts with a zero, and has up to three digits more. -/
  afterZero : Bool
  /-- An `x` starts a hexadecimal number of up to two digits. -/
  hexadecimal : Bool
  /-- An `e` stands for the escape character. -/
  escape : Bool
  /-- A quotation mark stands for itself. -/
  quotes : Bool
  /-- A `c` ends the text. -/
  ends : Bool

/-- The escapes of the tool that prints its arguments. -/
def echoEscapes : EscapeForm := ⟨true, true, true, true, false, true⟩

/-- The escapes of a format. -/
def formatEscapes : EscapeForm := ⟨true, false, true, true, true, true⟩

/-- The escapes of an argument that a format shows with `%b`. -/
def argumentEscapes : EscapeForm := ⟨true, true, true, true, true, true⟩

/-- The escapes of the built-in command that prints its arguments. -/
def plainEscapes : EscapeForm := ⟨true, true, false, true, false, true⟩

/-- The escapes of a format of the built-in command. -/
def plainFormatEscapes : EscapeForm := ⟨true, false, false, true, false, false⟩

/-- What an escape after its backslash stands for, and what follows it; nothing stands for an end. -/
def readEscape (form : EscapeForm) (t : Text) : Option Text × Text :=
  match t with
  | []     => (some ['\\'], [])
  | c :: r =>
    match escapeLetter? c with
    | some x => (some [x], r)
    | none   =>
      if form.ends ∧ c = 'c' then (none, r)
      else if form.escape ∧ c = 'e' then (some ['\x1b'], r)
      else if form.quotes ∧ c = '"' then (some ['"'], r)
      else if form.hexadecimal ∧ c = 'x' ∧ (r.head?.any fun d => (hexValue? d.toLower).isSome) then
        let digits := (r.take 2).takeWhile fun d => (hexValue? d.toLower).isSome
        (some [byteChar (ofDigits 16 (digits.map Char.toLower))], r.drop digits.length)
      else if form.afterZero ∧ c = '0' ∧ (r.head?.any isOctal) then
        let (x, n) := octal 3 r
        (some [x], r.drop n)
      else if form.direct ∧ isOctal c then
        let (x, n) := octal 3 (c :: r)
        (some [x], (c :: r).drop n)
      else (some ['\\', c], r)

/-- Replace the escapes in a text; also whether it goes on at its end. `fuel` bounds the steps. -/
def unescapeSteps (form : EscapeForm) : Nat → Text → Text × Bool
  | 0,        t => (t, true)
  | fuel + 1, t =>
    let piece := t.takeWhile (· != '\\')
    match t.drop piece.length with
    | []     => (piece, true)
    | _ :: r =>
      match readEscape form r with
      | (none, _)      => (piece, false)
      | (some x, rest) =>
        let (more, on) := unescapeSteps form fuel rest
        (piece ++ x ++ more, on)

/-- Replace the escapes in a text; also whether it goes on at its end. -/
def unescape (form : EscapeForm) (t : Text) : Text × Bool := unescapeSteps form (t.length + 1) t

/-! ## Sets -/

/-- An item of a set of characters. -/
inductive SetItem where
  | chars (t : Text)
  /-- A class; two that stand opposite may change the case. -/
  | named (name : Text) (t : Text)
  /-- A character, so many times, or as often as it takes. -/
  | repeated (c : Char) (count : Option Nat)

/-- Why a set is refused. -/
inductive SetFault where
  | badClass (name : Text)
  | emptyClass
  | manyInClass (name : Text)
  | reversed (a b : Text)
  | badCount (t : Text)

/-- The characters of ranges. -/
def charsOf (ranges : List (Char × Char)) : Text :=
  ranges.flatMap fun (a, b) => (List.range' a.toNat (b.toNat + 1 - a.toNat)).map Char.ofNat

/-- The characters of a set with their escapes replaced; an escaped one has no special meaning. -/
def setMarks : Nat → Text → List Mark
  | 0,        _ => []
  | fuel + 1, t =>
    match t with
    | []        => []
    | ['\\']    => [('\\', true)]
    | '\\' :: r =>
      if r.head?.any isOctal then
        let (x, n) := octal 3 r
        -- Three digits may stand for more than a byte holds; then the last one stands for itself.
        let n := if 255 < ofDigits 8 ((r.take 3).takeWhile isOctal) then 2 else n
        let x := if n = 2 then (octal 2 r).1 else x
        (x, false) :: setMarks fuel (r.drop n)
      else match r with
        | c :: r => ((escapeLetter? c).getD c, false) :: setMarks fuel r
        | []     => []
    | c :: r    => (c, true) :: setMarks fuel r

/-- A character as it is shown in complaints. -/
def shownChar (c : Char) : Text :=
  if ' ' ≤ c && c ≤ '~' then [c] else '\\' :: zeroPadded 3 (Nat.toDigits 8 c.toNat)

/-- The items of a set. `fuel` bounds their number. -/
def readSet : Nat → List Mark → Except SetFault (List SetItem)
  | 0,        _ => .ok []
  | fuel + 1, t =>
    let next (item : SetItem) (rest : List Mark) : Except SetFault (List SetItem) := do
      return item :: (← readSet fuel rest)
    let single : Except SetFault (List SetItem) :=
      match t with
      | (a, _) :: ('-', true) :: (b, _) :: r =>
        if b.toNat < a.toNat then .error (.reversed (shownChar a) (shownChar b)) else next (.chars (charsOf [(a, b)])) r
      | (a, _) :: r                          => next (.chars [a]) r
      | []                                   => .ok []
    match t with
    | ('[', true) :: (k, true) :: r =>
      if k = ':' ∨ k = '=' then
        -- The name may hold the pair's first character, but not be empty.
        match untilPair? k (r.drop 1), r with
        | some (name, rest), (c, _) :: _ =>
          let name := c :: name
          if k = '=' then
            (match name with
            | [c] => next (.chars [c]) rest
            | _   => if rest.isEmpty then .error (.manyInClass name) else single)
          else match classRanges? name with
            | some rs => next (.named name (charsOf rs)) rest
            | none    => .error (.badClass name)
        | _,                 _           => single
      else
        match r with
        | ('*', true) :: more =>
          let digits := (more.map (·.1)).takeWhile (· != ']')
          match more.drop digits.length with
          | [] => single
          | _ :: rest =>
            if digits.isEmpty then next (.repeated k none) rest
            else if digits.all isAsciiDigit then
              let n := if digits.head? = some '0' then ofDigits 8 digits else ofDigits 10 digits
              next (.repeated k (if n = 0 then none else some n)) rest
            else .error (.badCount digits)
        | _                   => single
    | ('[', true) :: (k, false) :: ('*', true) :: more =>
      let digits := (more.map (·.1)).takeWhile (· != ']')
      match more.drop digits.length with
      | []        => single
      | _ :: rest => next (.repeated k (if digits.isEmpty then none else digitsValue? digits)) rest
    | _ => single

/-- The characters of a set; `room` tells how many there are to be if one is repeated as often as it takes. -/
def setChars (room : Nat) (items : List SetItem) : Text :=
  let size : SetItem → Nat
    | .chars t               => t.length
    | .named _ t             => t.length
    | .repeated _ (some n)   => n
    | .repeated _ none       => 0
  let fixed := items.foldl (fun n i => n + size i) 0
  items.flatMap fun i => match i with
    | .chars t             => t
    | .named _ t           => t
    | .repeated c (some n) => List.replicate n c
    | .repeated c none     => List.replicate (room - fixed) c

/-- What is done to characters: those in `deleted` go, the others are replaced, and of repeated ones in `squeezed` one
    stays. -/
structure CharMap where
  deleted : Char → Bool
  replace : Char → Char
  squeezed : Char → Bool

/-- Keep one of each run of characters that are to be squeezed. -/
def squeeze (squeezed : Char → Bool) : Text → Text
  | []          => []
  | [c]         => [c]
  | c :: d :: t => if c = d ∧ squeezed c then squeeze squeezed (d :: t) else c :: squeeze squeezed (d :: t)

/-- Do to a text what a character map tells. -/
def CharMap.apply (m : CharMap) (t : Text) : Text :=
  squeeze m.squeezed ((t.filter fun c => !m.deleted c).map m.replace)

/-- A text without characters to be squeezed twice in a row stays as it is. -/
theorem squeeze_of_none {squeezed : Char → Bool} {t : Text} (h : ∀ c ∈ t, squeezed c = false) :
    squeeze squeezed t = t := by
  induction t with
  | nil => rfl
  | cons c t ih =>
    cases t with
    | nil => rfl
    | cons d t =>
      have hc : squeezed c = false := h c (by simp)
      simp [squeeze, hc, ih fun x hx => h x (by simp [hx])]

/-- The character that replaces one of a set: that at the last of its positions, or the last one. -/
def counterpart (old new : Text) (c : Char) : Char :=
  match old.reverse.findIdx? (· == c) with
  | some i => (new[old.length - 1 - i]?.or new.getLast?).getD c
  | none   => c

/-- All characters of bytes that are not in a set, in order. -/
def complementOf (t : Text) : Text := ((List.range 256).map Char.ofNat).filter fun c => !t.elem c

/-- The items of a set, unless it is refused. -/
def takeSet (t : Text) : Job (List SetItem) := do
  match readSet (t.length + 1) (setMarks (t.length + 1) t) with
  | .ok items                 => return items
  | .error (.badClass name)   => quitWith 1 (text "invalid character class " ++ quoted name)
  | .error .emptyClass        => quitWith 1 (text "missing character class name '[::]'")
  | .error (.manyInClass name) =>
    quitWith 1 (name ++ text ": equivalence class operand must be a single character")
  | .error (.reversed a b)    =>
    quitWith 1 (text "range-endpoints of '" ++ a ++ text "-" ++ b ++ text "' are in reverse collating sequence order")
  | .error (.badCount n)      => quitWith 1 (text "invalid repeat count " ++ quoted n ++ text " in [c*n] construct")

/-- Delete, replace and squeeze characters. -/
def tr : Tool := Job.tool fun args => do
  let spec : OptionSpec :=
    { flags := "cCdst", valued := "", optional := "", inOrder := true
      long := [("complement", 'c'), ("delete", 'd'), ("squeeze-repeats", 's'), ("truncate-set1", 't')] }
  let (options, sets) ← takeOptions 1 spec args
  let inverted := isGiven options 'c' || isGiven options 'C'
  let deleting := isGiven options 'd'
  let squeezing := isGiven options 's'
  let least := if deleting == squeezing then 2 else 1
  let most := if deleting && !squeezing then 1 else 2
  if sets.length < least then do
    if sets.isEmpty then misused 1 (text "missing operand")
    else do
      blame (text "missing operand after " ++ quoted (sets.getLast?.getD []))
      complain (text (if squeezing then "Two strings must be given when both deleting and squeezing repeats."
        else "Two strings must be given when translating."))
      complain (text "Try '" ++ (← read).name ++ text " --help' for more information.")
      quit 1
  if most < sets.length then do
    blame (text "extra operand " ++ quoted ((sets.drop most).head?.getD []))
    if sets.length = 2 then complain (text "Only one string may be given when deleting without squeezing repeats.")
    complain (text "Try '" ++ (← read).name ++ text " --help' for more information.")
    quit 1
  let translating := !deleting && sets.length = 2
  let items ← takeSet (sets.head?.getD [])
  let newItems ← takeSet ((sets.drop 1).head?.getD [])
  if items.any fun i => match i with
    | .repeated _ none => true
    | _                => false then
    quitWith 1 (text "the [c*] repeat construct may not appear in string1")
  let plain := setChars 0 items
  let old := if inverted then complementOf plain else plain
  let new := setChars old.length newItems
  if translating then do
    if new.isEmpty && !isGiven options 't' then
      quitWith 1 (text "when not truncating set1, string2 must be non-empty")
    if newItems.any fun i => match i with
      | .named n _ => n != text "upper" && n != text "lower"
      | _          => false then
      quitWith 1 (text "when translating, the only character classes that may appear in\nstring2 are 'upper' and 'lower'")
  let old := if isGiven options 't' && translating then old.take new.length else old
  let map : CharMap :=
    { deleted := fun c => deleting && old.elem c
      replace := fun c => if translating then counterpart old new c else c
      squeezed := fun c => squeezing && (if sets.length = 2 then new.elem c else old.elem c) }
  print (map.apply (← takeInput))

/-! ## Columns -/

/-- The column after a character, with stops at each eighth one. -/
def columnAfter (byByte : Bool) (column : Nat) (c : Char) : Nat :=
  if byByte then column + 1
  else if c = '\x08' then column - 1
  else if c = '\r' then 0
  else if c = '\t' then column + 8 - column % 8
  else column + 1

/-- Break lines that are wider than a width. The line so far is held backwards. -/
def foldChars (width : Nat) (atBlanks byByte : Bool) : Nat → Text → Text → Nat → Text
  | 0,        held, t, _      => held.reverse ++ t
  | fuel + 1, held, t, column =>
    match t with
    | []     => held.reverse
    | c :: r =>
      if c = '\n' then held.reverse ++ '\n' :: foldChars width atBlanks byByte fuel [] r 0
      else
        let next := columnAfter byByte column c
        if next ≤ width then foldChars width atBlanks byByte fuel (c :: held) r next
        else if atBlanks && held.any isGap' then
          -- The line is broken after its last blank.
          let tail := held.takeWhile fun c => !isGap' c
          (held.drop tail.length).reverse ++ '\n' ::
            foldChars width atBlanks byByte fuel tail t (tail.foldr (fun c n => columnAfter byByte n c) 0)
        else if held.isEmpty then foldChars width atBlanks byByte fuel [c] r next
        else held.reverse ++ '\n' :: foldChars width atBlanks byByte fuel [] t 0
where
  /-- The blanks at which a line may be broken. -/
  isGap' (c : Char) : Bool := c == ' ' || c == '\t'

/-- Options with a bare number for a width spelled out. -/
def withWidth (letter : Char) (args : List Text) : List Text :=
  args.map fun a => match a with
    | '-' :: d :: r => if isAsciiDigit d then '-' :: letter :: d :: r else a
    | a             => a

/-- Break lines that are too wide. -/
def fold : Tool := Job.tool fun args => do
  let spec : OptionSpec :=
    { flags := "bs", valued := "w", optional := "", inOrder := false
      long := [("bytes", 'b'), ("spaces", 's'), ("width", 'w')] }
  let (options, files) ← takeOptions 1 spec (withWidth 'w' args)
  let width ← match given? options 'w' with
    | none   => pure 80
    | some v =>
      match digitsValue? v with
      | some (n + 1) => pure (n + 1)
      | some 0       => quitWith 1 (text "invalid number of columns: " ++ quoted v ++ text ": Numerical result out of range")
      | none         => quitWith 1 (text "invalid number of columns: " ++ quoted v)
  for (_, t) in ← readSources 1 aboutFile files do
    print (foldChars width (isGiven options 's') (isGiven options 'b') (3 * t.length + 3) [] t 0)

/-- Where columns stop: at given ones, then at every `step`th one. -/
structure TabStops where
  stops : List Nat
  /-- The distance of the stops after the last one, and where they are counted from. -/
  step : Nat
  start : Nat

/-- The next stop after a column, if there is one. -/
def TabStops.next? (s : TabStops) (column : Nat) : Option Nat :=
  match s.stops.find? fun n => column < n with
  | some n => some n
  | none   => if s.step = 0 then none else some (s.start + s.step * ((column - s.start) / s.step + 1))

/-- Stops from a list of numbers. -/
def readTabStops? (t : Text) : Option TabStops := do
  let parts := (splitOn ',' (t.map fun c => if isGap c then ',' else c)).filter fun p => !p.isEmpty
  let last := parts.getLast?.getD []
  let plain (ps : List Text) : Option (List Nat) := ps.mapM digitsValue?
  match last with
  | '/' :: n => return ⟨← plain parts.dropLast, ← digitsValue? n, 0⟩
  | '+' :: n => do
    let stops ← plain parts.dropLast
    return ⟨stops, ← digitsValue? n, stops.getLast?.getD 0⟩
  | _        =>
    match ← plain parts with
    | [n]   => return ⟨[], n, 0⟩
    | stops => return ⟨stops, 0, 0⟩
where
  /-- The blanks between the numbers. -/
  isGap (c : Char) : Bool := c == ' ' || c == '\t'

/-- Replace tabs by blanks. -/
def expandChars (s : TabStops) (initial : Bool) : Nat → Bool → Text → Text
  | _,      _,     []     => []
  | column, start, c :: t =>
    if c = '\n' then '\n' :: expandChars s initial 0 true t
    else if c = '\t' ∧ (start ∨ !initial) then
      let stop := (s.next? column).getD (column + 1)
      List.replicate (stop - column) ' ' ++ expandChars s initial stop start t
    else if c = '\x08' then c :: expandChars s initial (column - 1) false t
    else c :: expandChars s initial (column + 1) (start && c == ' ') t

/-- How far blanks of a line were replaced. -/
structure Blanks where
  column : Nat
  /-- Blanks of which it is not yet known what becomes of them, the last one first. -/
  pending : Text
  /-- The first of them stands right before a stop. -/
  oneBeforeStop : Bool
  afterBlank : Bool
  /-- Blanks are still replaced. -/
  active : Bool

/-- The start of a line. -/
def Blanks.start : Blanks := ⟨0, [], false, true, true⟩

/-- The blanks that were held back, as they are written. -/
def Blanks.released (b : Blanks) : Text :=
  let held := b.pending.reverse
  if 1 < held.length && b.oneBeforeStop then '\t' :: held.tail else held

/-- Take one character; what is written. -/
def Blanks.step (s : TabStops) (all : Bool) (b : Blanks) (c : Char) : Text × Blanks :=
  let isBlank := c == ' ' || c == '\t'
  let release (b : Blanks) (c : Char) : Text × Blanks :=
    (b.released ++ [c],
      { b with pending := [], oneBeforeStop := b.oneBeforeStop && b.pending.isEmpty, afterBlank := isBlank
               active := b.active && (all || isBlank) })
  -- Of the blanks before a tab only one that stood right before an earlier stop is kept.
  let tabbed (b : Blanks) (stop : Nat) : Text × Blanks :=
    release { b with column := stop, pending := if b.oneBeforeStop then ['\t'] else [] } '\t'
  if c = '\n' then (b.released ++ [c], .start)
  else if !b.active then ([c], b)
  else if !isBlank then
    release { b with column := if c = '\x08' then b.column - 1 else b.column + 1 } c
  else match s.next? b.column with
    | none      => release { b with active := false } c
    | some stop =>
      if c = '\t' then tabbed { b with oneBeforeStop := b.oneBeforeStop && !b.pending.isEmpty } stop
      else if b.afterBlank && b.column + 1 = stop then tabbed b stop
      else ([], { b with column := b.column + 1, pending := c :: b.pending, afterBlank := true
                         oneBeforeStop := b.oneBeforeStop || b.column + 1 = stop })

/-- Replace blanks before stops by tabs. -/
def unexpandText (s : TabStops) (all : Bool) (t : Text) : Text :=
  let (shown, b) := t.foldl (fun ((shown, b) : Text × Blanks) c =>
    let (more, b) := b.step s all c
    (more.reverse ++ shown, b)) ([], Blanks.start)
  shown.reverse ++ b.released

/-- The stops that options ask for; every eighth column if there are none. -/
def takeTabStops (options : Options) : Job TabStops := do
  match options.filterMap fun o => if o.1 == 't' then some o.2 else none with
  | []    => return ⟨[], 8, 0⟩
  | lists =>
    match readTabStops? (joinWith [','] lists) with
    | none   =>
      let list := joinWith [','] lists
      let bad := (list.dropWhile fun c => isAsciiDigit c || c == ',' || c == ' ')
      quitWith 1 (text "tab size contains invalid character(s): " ++ quoted bad)
    | some s =>
      if s.stops.isEmpty ∧ s.step = 0 ∨ s.stops.elem 0 then quitWith 1 (text "tab size cannot be 0")
      else if (s.stops.zip (s.stops.drop 1)).any fun (a, b) => b ≤ a then quitWith 1 (text "tab sizes must be ascending")
      else return s

/-- Options with bare lists of stops spelled out. -/
def withStops (args : List Text) : List Text := withWidth 't' args

/-- Replace tabs by blanks. -/
def expand : Tool := Job.tool fun args => do
  let spec : OptionSpec :=
    { flags := "i", valued := "t", optional := "", inOrder := false, long := [("initial", 'i'), ("tabs", 't')] }
  let (options, files) ← takeOptions 1 spec (withStops args)
  let stops ← takeTabStops options
  for (_, t) in ← readSources 1 aboutFile files do
    print (expandChars stops (isGiven options 'i') 0 true t)

/-- Replace blanks by tabs. -/
def unexpand : Tool := Job.tool fun args => do
  let spec : OptionSpec :=
    { flags := "af", valued := "t", optional := "", inOrder := false
      long := [("all", 'a'), ("first-only", 'f'), ("tabs", 't')] }
  let (options, files) ← takeOptions 1 spec (withStops args)
  let stops ← takeTabStops options
  let all := (isGiven options 'a' || isGiven options 't') && !isGiven options 'f'
  for (_, t) in ← readSources 1 aboutFile files do
    print (unexpandText stops all t)

/-! ## Counts -/

/-- The numbers of lines, words and bytes of a text, and the width of its widest line. -/
structure Counts where
  lines : Nat
  words : Nat
  bytes : Nat
  width : Nat

/-- Count. -/
def Counts.of (t : Text) : Counts :=
  let lines := t.count '\n'
  let words := (t.foldl (fun (n, inWord) c =>
    if isSpace c then (n, false) else if inWord then (n, true) else (n + 1, true)) (0, false)).1
  let width := ((t.foldl (fun (most, column) c =>
    if c = '\n' ∨ c = '\r' ∨ c = '\x0c' then (max most column, 0)
    else if c = '\t' then (max most column, column + 8 - column % 8)
    else if ' ' ≤ c ∧ c ≤ '~' then (most, column + 1)
    else (most, column)) (0, 0)))
  ⟨lines, words, t.length, max width.1 width.2⟩

/-- The sum of counts. -/
def Counts.add (a b : Counts) : Counts := ⟨a.lines + b.lines, a.words + b.words, a.bytes + b.bytes, max a.width b.width⟩

/-- Count lines, words and bytes. -/
def wc : Tool := Job.prompt fun args => do
  let spec : OptionSpec :=
    { flags := "cmlLw", valued := "", optional := "", inOrder := false
      long := [("bytes", 'c'), ("chars", 'm'), ("lines", 'l'), ("max-line-length", 'L'), ("words", 'w')] }
  let (options, files) ← takeOptions 1 spec args
  let asked (c : Char) : Bool := if options.isEmpty then c ∈ text "lwc" else isGiven options c
  let kinds := (text "lwmcL").filter asked
  let s ← read
  let disk ← diskNow
  let sizes := (if files.isEmpty then [['-']] else files).map fun file =>
    if file = ['-'] then some (if s.seekable then s.input.length else 0, s.seekable)
    else match disk.find s.dir (pathOf file) with
      | .ok (_, .file data _) => some (data.length, true)
      | .ok _                 => some (0, false)
      | .error _              => none
  let width :=
    if files.length ≤ 1 && kinds.length = 1 then 1
    else
      let total := sizes.foldl (fun n z => n + (z.map (·.1)).getD 0) 0
      max (ofNat total).length (if sizes.any fun z => z.any fun z => !z.2 then 7 else 1)
  let row (c : Counts) (name : Text) : Text :=
    let numbers := kinds.map fun k => padLeft width (ofNat (match k with
      | 'l' => c.lines
      | 'w' => c.words
      | 'L' => c.width
      | _   => c.bytes))
    joinWith [' '] numbers ++ (if name.isEmpty then [] else ' ' :: name) ++ ['\n']
  let mut total : Counts := ⟨0, 0, 0, 0⟩
  for file in if files.isEmpty then [['-']] else files do
    let name := if files.isEmpty then [] else file
    match ← readSource file with
    | .ok t            => do
      total := total.add (.of t)
      print (row (.of t) name)
    | .error .isFolder => do
      blame (shown file ++ text ": Is a directory")
      print (row ⟨0, 0, 0, 0⟩ name)
      setCode 1
    | .error e         => do
      blame (aboutFile file e)
      setCode 1
  if 1 < files.length then print (row total (text "total"))

end JavaMend.Host
