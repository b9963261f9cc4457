import JavaMend.Host.Number.Layout
import JavaMend.Host.Streams.Characters

/-!
# `Host.Printing` — tools that print their arguments

The arguments are printed as they are, with escapes, as numbers in a row, or in the places of a format that is used as
often as the arguments last.

## Contents
- **Plain.** `echoText`, `echo`, `yes`.
- **Formats.** `FormatStyle`, `FormatFault`, `printFormat`; `printf`.
- **Numbers in a row.** `Step`, `seq`.
- **Endings.** `succeed`, `fail`, `sleep`.
-/

namespace JavaMend.Host

open JavaMend Text

/-! ## Plain -/

/-- The arguments with blanks between them, with an end of line or without one. -/
def echoText (form : Option EscapeForm) (ended : Bool) (args : List Text) : Text :=
  let line := joinWith [' '] args
  match form with
  | none      => if ended then line ++ ['\n'] else line
  | some form =>
    let (shown, on) := unescape form line
    if on && ended then shown ++ ['\n'] else shown

/-- The arguments after options; each of these has only the letters `n`, `e` and `E`. -/
def echoArguments (escapes ended : Bool) : List Text → Text
  | []      => echoText none ended []
  | a :: as =>
    match a with
    | '-' :: c :: r =>
      if (c :: r).all fun c => c ∈ text "neE" then
        let last := (c :: r).reverse.find? fun c => c != 'n'
        echoArguments ((last.map (· == 'e')).getD escapes) (ended && !(c :: r).elem 'n') as
      else echoText (if escapes then some echoEscapes else none) ended (a :: as)
    | _             => echoText (if escapes then some echoEscapes else none) ended (a :: as)

/-- Print the arguments. -/
def echo : Tool := Job.tool fun args => print (echoArguments false true args)

/-- How much is written at most by a tool that writes without end, before what it writes is read. -/
def endlessOutput : Nat := 0x20000

/-- Print the arguments again and again. -/
def yes : Tool := Job.tool fun args => do
  let (_, words) ← takeOptions 1 ⟨"", "", "", [], false⟩ args
  let line := (if words.isEmpty then ['y'] else joinWith [' '] words) ++ ['\n']
  print (List.replicate (endlessOutput / line.length + 1) line).flatten
  throw .endless

/-! ## Formats -/

/-- How a format is read and filled. -/
structure FormatStyle where
  /-- The escapes in the format, and in arguments that are shown with `%b`. -/
  escapes : EscapeForm
  argumentEscapes : EscapeForm
  /-- The format that amounts are held in. -/
  amounts : BinaryFormat
  /-- What stands around a place that is not known, and how it is complained about. -/
  badSlot : Text → Text
  /-- The complaint about an argument that is no number, or is one only in part. -/
  notNumber : Text → Text
  notAllNumber : Text → Text
  tooGreat : Text → Text
  /-- Letters that may stand before the kind of a place. -/
  lengths : String
  /-- Arguments can be shown between quotes. -/
  quotes : Bool

/-- What is printed so far in a format. -/
structure Filling where
  shown : Text
  args : List Text
  complaints : List Text
  /-- Whether arguments were asked for. -/
  used : Bool

/-- Why printing stops. -/
inductive FormatStop where
  /-- An escape asks for it. -/
  | ends
  /-- The format has a place of an unknown kind, or an incomplete one. -/
  | bad (slot : Text) (complete : Bool)
deriving DecidableEq

/-- Steps of filling a format. -/
abbrev Fill := ExceptT FormatStop (StateM Filling)

/-- The next argument; none if there is none left. -/
def nextArgument : Fill (Option Text) := do
  let f ← get
  set { f with args := f.args.tail, used := true }
  return f.args.head?

/-- Complain about an argument. -/
def Fill.complain (complaint : Text) : Fill Unit := modify fun f => { f with complaints := complaint :: f.complaints }

/-- Show a text. -/
def Fill.show (t : Text) : Fill Unit := modify fun f => { f with shown := f.shown ++ t }

/-- The whole number at the start of a text and what follows it: decimal, octal after a zero, or hexadecimal. -/
def leadingInt? (t : Text) : Option (Int × Text) :=
  let t := t.dropWhile isSpace
  let (negative, r) := match t with
    | '-' :: r => (true, r)
    | '+' :: r => (false, r)
    | r        => (false, r)
  let found : Option (Nat × Text) :=
    let isHex (c : Char) : Bool := (hexValue? c.toLower).isSome
    match dropWord? (text "0x") r with
    | some h =>
      if h.head?.any isHex then
        let digits := h.takeWhile isHex
        some (ofDigits 16 (digits.map Char.toLower), h.drop digits.length)
      else some (0, r.drop 1)
    | none   =>
      let digits := r.takeWhile isAsciiDigit
      if digits.isEmpty then none
      else if digits.head? = some '0' then
        let digits := r.takeWhile isOctal
        some (ofDigits 8 digits, r.drop digits.length)
      else some (ofDigits 10 digits, r.drop digits.length)
  found.map fun (n, rest) => (if negative then -(n : Int) else n, rest)

/-- The whole number that an argument stands for: that of the character after a quotation mark, or its digits. -/
def wholeArgument (style : FormatStyle) (signed : Bool) (argument : Option Text) : Fill Int := do
  match argument with
  | none         => return 0
  | some ('\'' :: c :: _) => return c.toNat
  | some ('"' :: c :: _)  => return c.toNat
  | some t       =>
    match leadingInt? t with
    | none           => do
      if !t.isEmpty then Fill.complain (style.notNumber t)
      return 0
    | some (n, rest) => do
      if !rest.isEmpty then Fill.complain (style.notAllNumber t)
      let least : Int := if signed then -Nat.pow 2 63 else -(Nat.pow 2 64 - 1 : Nat)
      let greatest : Int := if signed then Nat.pow 2 63 - 1 else Nat.pow 2 64 - 1
      let kept := if n < least then (if signed then least else greatest) else if greatest < n then greatest else n
      if kept ≠ n then Fill.complain (style.tooGreat t)
      return if signed || 0 ≤ kept then kept else kept + Nat.pow 2 64

/-- The amount that an argument stands for. -/
def amountArgument (style : FormatStyle) (argument : Option Text) : Fill Amount := do
  match argument with
  | none                  => return .finite false 0 1
  | some ('\'' :: c :: _) => return .finite false c.toNat 1
  | some ('"' :: c :: _)  => return .finite false c.toNat 1
  | some t                =>
    match leadingAmount? t with
    | none           => do
      if !t.isEmpty then Fill.complain (style.notNumber t)
      return .finite false 0 1
    | some (a, rest) => do
      if !rest.isEmpty then Fill.complain (style.notAllNumber t)
      return a.rounded style.amounts

/-- The value of a measure. -/
def measured (style : FormatStyle) : Measure → Fill Int
  | .given n => return n
  | .next    => do wholeArgument style true (← nextArgument)

/-- Fill one place. -/
def fillSlot (style : FormatStyle) (s : Slot) : Fill Unit := do
  let width ← measured style s.width
  let precision ← match s.precision with
    | some m => do pure (some (← measured style m))
    | none   => pure none
  let l := Layout.make s.flags width precision
  if s.kind ∈ text "di" then do
    let n ← wholeArgument style true (← nextArgument)
    Fill.show (l.whole 'd' n)
  else if s.kind ∈ text "uoxX" then do
    let n ← wholeArgument style false (← nextArgument)
    Fill.show (l.whole s.kind n)
  else if s.kind ∈ text "eEfFgG" then do
    let a ← amountArgument style (← nextArgument)
    Fill.show (l.amount s.kind a)
  else match s.kind with
    | 's' => do Fill.show (l.chars ((← nextArgument).getD []))
    | 'c' => do Fill.show (l.word [((← nextArgument).bind List.head?).getD '\x00'])
    | 'b' => do
      let (shown, on) := unescape style.argumentEscapes ((← nextArgument).getD [])
      Fill.show (l.chars shown)
      if !on then throw .ends
    | 'q' => do
      if style.quotes then Fill.show (shown ((← nextArgument).getD [])) else throw (.bad s.source true)
    | _   => throw (.bad s.source true)

/-- Use a format once. `fuel` bounds its parts. -/
def fillOnce (style : FormatStyle) : Nat → Text → Fill Unit
  | 0,        _ => return
  | fuel + 1, t => do
    match t with
    | []              => return
    | '%' :: '%' :: r => do
      Fill.show ['%']
      fillOnce style fuel r
    | '%' :: r        =>
      match readSlot "#-+ 0'" style.lengths r with
      | .error slot     => throw (.bad slot false)
      | .ok (slot, r)   => do
        fillSlot style slot
        fillOnce style fuel r
    | '\\' :: r       =>
      match readEscape style.escapes r with
      | (none, _)      => throw .ends
      | (some x, rest) => do
        Fill.show x
        fillOnce style fuel rest
    | c :: r          => do
      let piece := c :: r.takeWhile fun c => c != '%' && c != '\\'
      Fill.show piece
      fillOnce style fuel (t.drop piece.length)

/-- Use a format until no argument is left. `fuel` bounds the rounds. -/
def fillAll (style : FormatStyle) (format : Text) : Nat → Fill Unit
  | 0        => return
  | fuel + 1 => do
    fillOnce style (format.length + 1) format
    let f ← get
    if f.used ∧ !f.args.isEmpty then fillAll style format fuel

/-- Print arguments in a format: what is shown, what is complained about, the arguments that were not used, and why the
    format was left. -/
def printFormat (style : FormatStyle) (format : Text) (args : List Text) : Filling × Option FormatStop :=
  match Id.run (StateT.run (ExceptT.run (fillAll style format (args.length + 1))) ⟨[], args, [], false⟩) with
  | (.ok _,       f) => (f, none)
  | (.error stop, f) => (f, some stop)

/-- How `printf` reads and fills a format. -/
def printfStyle : FormatStyle where
  escapes := formatEscapes
  argumentEscapes := argumentEscapes
  amounts := extended
  badSlot := fun t => t ++ text ": invalid conversion specification"
  notNumber := fun t => quoted t ++ text ": expected a numeric value"
  notAllNumber := fun t => quoted t ++ text ": value not completely converted"
  tooGreat := fun t => quoted t ++ text ": Numerical result out of range"
  lengths := "hlLjtz"
  quotes := true

/-- Print arguments in a format. -/
def printf : Tool := Job.tool fun args => do
  match if args.head? = some (text "--") then args.tail else args with
  | []             => misused 1 (text "missing operand")
  | format :: args => do
    let (f, stop) := printFormat printfStyle format args
    print f.shown
    for c in f.complaints.reverse do
      blame c
      setCode 1
    match stop with
    | some (.bad slot _) => quitWith 1 (printfStyle.badSlot slot)
    | some .ends         => return
    | none               =>
      if !f.args.isEmpty then
        blame (text "warning: ignoring excess arguments, starting with " ++ quoted (f.args.head?.getD []))

/-! ## Numbers in a row -/

/-- A decimal number as so many units of the last of its places. -/
structure Step where
  units : Int
  places : Nat
  /-- The characters before and after the point, as they are written. -/
  width : Nat

/-- A decimal number. -/
def readStep? (t : Text) : Option Step := do
  let (negative, r) := match t with
    | '-' :: r => (true, r)
    | '+' :: r => (false, r)
    | r        => (false, r)
  let (whole, fraction, rest) := digitParts isAsciiDigit r
  if whole.isEmpty ∧ fraction.isEmpty then none
  else
    let (e, rest) := exponentPart 'e' rest
    if !rest.isEmpty then none
    else
      let n : Int := ofDigits 10 (whole ++ fraction)
      let n := if negative then -n else n
      let places := ((fraction.length : Int) - e).toNat
      let scale := Nat.pow 10 ((places : Int) - fraction.length + e).toNat
      let sign := if negative then 1 else 0
      return ⟨n * scale, places, sign + max 1 whole.length + (if fraction.isEmpty then 0 else 1 + fraction.length)⟩

/-- A number with so many places. -/
def Step.at (s : Step) (places : Nat) : Int := s.units * Nat.pow 10 (places - s.places)

/-- So many units of the last place, written out. -/
def placesText (places : Nat) (n : Int) : Text :=
  let digits := zeroPadded (places + 1) (ofNat n.natAbs)
  let whole := digits.take (digits.length - places)
  (if n < 0 then ['-'] else []) ++ if places = 0 then whole else whole ++ '.' :: digits.drop (digits.length - places)

/-- The most numbers that are printed before the row counts as endless. -/
def rowLimit : Nat := 1000000

/-- Print the numbers from one to another. -/
def seq : Tool := Job.tool fun args => do
  let spec : OptionSpec :=
    { flags := "w", valued := "sf", optional := "", inOrder := true
      long := [("equal-width", 'w'), ("separator", 's'), ("format", 'f')] }
  -- Numbers below zero are no options.
  let isNumber (a : Text) : Bool := match a with
    | '-' :: c :: _ => isAsciiDigit c || c == '.'
    | _             => false
  let before := args.takeWhile fun a => !isNumber a
  let (options, operands) ← takeOptions 1 spec before
  let operands := operands ++ args.drop before.length
  let number (t : Text) : Job Step := do
    match readStep? t with
    | some n => return n
    | none   => misused 1 (text "invalid floating point argument: " ++ quoted t)
  let one : Step := ⟨1, 0, 1⟩
  let (first, step, last) ← match operands with
    | []                    => misused 1 (text "missing operand")
    | [c]                   => pure (one, one, ← number c)
    | [a, c]                => pure (← number a, one, ← number c)
    | [a, b, c]             => pure (← number a, ← number b, ← number c)
    | _ :: _ :: _ :: x :: _ => misused 1 (text "extra operand " ++ quoted x)
  if step.units = 0 then
    misused 1 (text "invalid Zero increment value: " ++ quoted ((operands.drop 1).head?.getD []))
  let places := max first.places step.places
  let fine := max places last.places
  let a := first.at fine
  let d := step.at fine
  let b := last.at fine
  let span := if 0 < d then b - a else a - b
  let count := if span < 0 then 0 else (span / d.natAbs).toNat + 1
  let unit : Int := Nat.pow 10 (fine - places)
  let value (i : Nat) : Int := (a + d * i) / unit
  let texts := (List.range (min count rowLimit)).map fun i => placesText places (value i)
  let width := max (if first.places < places then first.width + places - first.places + (if first.places = 0 then 1 else 0)
    else first.width) (placesText places (value (count - 1))).length
  let texts := match given? options 'f' with
    | some format =>
      (List.range (min count rowLimit)).map fun i =>
        (printFormat { printfStyle with escapes := ⟨false, false, false, false, false, false⟩ } format
          [placesText places (value i)]).1.shown
    | none        =>
      if isGiven options 'w' then texts.map fun t => match t with
        | '-' :: r => '-' :: zeroPadded (width - 1) r
        | r        => zeroPadded width r
      else texts
  if !texts.isEmpty then print (joinWith ((given? options 's').getD ['\n']) texts ++ ['\n'])
  if rowLimit < count then throw .endless

/-! ## Endings -/

/-- End well. -/
def succeed : Tool := Job.tool fun _ => return

/-- End with code 1. -/
def fail : Tool := Job.tool fun _ => setCode 1

/-- The milliseconds that a number of seconds with a unit stands for. -/
def milliseconds? (t : Text) : Option Nat := do
  let (a, rest) ← leadingAmount? t
  let unit ← match rest with
    | []    => some 1000
    | ['s'] => some 1000
    | ['m'] => some 60000
    | ['h'] => some 3600000
    | ['d'] => some 86400000
    | _     => none
  match a with
  | .finite false num den => return num * unit / den
  | .finite true 0 _      => return 0
  | .infinite false       => return Nat.pow 2 62
  | _                     => none

/-- Take time. -/
def sleep : Tool := Job.tool fun args => do
  let (_, times) ← takeOptions 1 ⟨"", "", "", [], false⟩ args
  if times.isEmpty then misused 1 (text "missing operand")
  let bad := times.filter fun t => (milliseconds? t).isNone
  for t in bad do blame (text "invalid time interval " ++ quoted t)
  if !bad.isEmpty then do
    complain (text "Try '" ++ (← read).name ++ text " --help' for more information.")
    quit 1
  takeTime ((times.filterMap milliseconds?).foldl (· + ·) 0)

end JavaMend.Host
