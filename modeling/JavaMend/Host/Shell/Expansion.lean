import JavaMend.Host.Pattern.Glob
import JavaMend.Host.Shell.Arithmetic

/-!
# `Host.Shell.Expansion` — from words to arguments

A word is expanded to bits: characters that know whether they may separate words and whether they may be part of a
pattern, and signs between them. The bits are split into fields, and a field that is a pattern becomes the paths that
match it.

## Contents
- **Bits.** `Bit`, `valueBits`, `bitsText`.
- **Splitting.** `Splitting`, `splitBits`, `splitLimited`.
- **Paths.** `patternMarks`, `pathsOf`.
- **Expansion.** `Purpose`, `expandParts`; `expandText`, `expandPattern`, `expandWord`, `expandAssigned`.
-/

namespace JavaMend.Host.Shell

open JavaMend Text

/-! ## Bits -/

/-- A bit of an expanded word. -/
inductive Bit where
  | char (c : Char) (splits isQuoted : Bool)
  /-- Between parameters that stay apart. -/
  | wall
  /-- Between parameters that are split. -/
  | gap
  /-- A quotation mark. -/
  | mark
  /-- What follows was put into the word; it is split at walls only, or at separators. -/
  | region (walls : Bool)
deriving DecidableEq, Repr

/-- The bits of a value. -/
def valueBits (isQuoted : Bool) (t : Text) : List Bit := t.map fun c => .char c (!isQuoted) isQuoted

/-- The text of bits that are not split. -/
def bitsText (bits : List Bit) : Text := bits.filterMap fun b => match b with
  | .char c _ _ => some c
  | _           => none

theorem bitsText_valueBits (isQuoted : Bool) (t : Text) : bitsText (valueBits isQuoted t) = t := by
  rw [bitsText, valueBits, List.filterMap_map]
  exact List.filterMap_some

/-! ## Splitting -/

/-- A character of a field; one that is quoted is no part of a pattern. -/
abbrev FieldChar := Char × Bool

/-- A row of bits that is being split. -/
structure Splitting where
  /-- The fields that are complete, the latest first. -/
  fields : List (List FieldChar)
  /-- The characters of the field that is not, the latest first. -/
  current : List FieldChar
  /-- There is something in the field, if only quotation marks. -/
  isStarted : Bool
  /-- The last separator was a blank. -/
  afterBlank : Bool
  /-- Separators are skipped that belong to the last one. -/
  skips : Bool
  /-- The region is split at walls only. -/
  walls : Bool
  /-- So was the region before. -/
  afterWalls : Bool
  /-- How many fields may still be split off, if this is limited. -/
  left : Option Nat
  /-- The length of the last field without the separators at its end. -/
  cut : Option Nat

/-- Nothing has been split. -/
def Splitting.start (left : Option Nat) : Splitting := ⟨[], [], false, false, false, false, false, left, none⟩

/-- A separator that is always one. -/
def isUsualSeparator (c : Char) : Bool := c == ' ' || c == '\t' || c == '\n'

/-- Take a character that belongs to the field. -/
def Splitting.keep (s : Splitting) (c : FieldChar) : Splitting :=
  { s with current := c :: s.current, isStarted := true, skips := false }

/-- Take a separator, which may be a blank. A gap is a blank without a character. -/
def Splitting.separate (s : Splitting) (isBlank : Bool) (c : Option FieldChar) : Splitting :=
  let kept := match c with
    | some c => c :: s.current
    | none   => s.current
  if s.skips && isBlank then s
  else if s.skips && s.afterBlank then { s with afterBlank := false }
  else
    let s := if s.afterWalls || s.walls then s else { s with afterBlank := isBlank }
    if !s.isStarted && s.afterBlank then { s with skips := false, afterBlank := false }
    else match s.left with
      | some (n + 1) =>
        if n = 0 then { s with left := some 0, cut := some s.current.length, current := kept, isStarted := true }
        else { s with fields := s.current.reverse :: s.fields, current := [], isStarted := false, skips := !s.walls,
                      left := some n }
      | _            =>
        { s with fields := s.current.reverse :: s.fields, current := [], isStarted := false, skips := !s.walls }

/-- Take one bit. -/
def Splitting.step (separators : Text) (s : Splitting) (b : Bit) : Splitting :=
  if s.left = some 0 then
    -- All that is left belongs to the last field.
    match b with
    | .char c splits isQuoted =>
      let isSeparator := splits && separators.elem c
      let isBlank := isSeparator && isUsualSeparator c
      let grown := { s with current := (c, isQuoted) :: s.current }
      if isBlank then { grown with cut := some (s.cut.getD s.current.length) }
      else { grown with cut := if isSeparator && s.afterBlank then s.cut else none, afterBlank := false }
    | _                       => s
  else match b with
    | .char c splits isQuoted =>
      if splits && !s.walls && separators.elem c then s.separate (isUsualSeparator c) (some (c, isQuoted))
      else s.keep (c, isQuoted)
    | .mark                   => { s with isStarted := true, skips := false }
    | .gap                    => s.separate true none
    | .wall                   => { s with fields := s.current.reverse :: s.fields, current := [], isStarted := false }
    | .region walls           => { s with afterWalls := s.walls, walls := walls, afterBlank := false, skips := false }

/-- The fields when all bits are taken. -/
def Splitting.finish (s : Splitting) : List (List FieldChar) :=
  let last := match s.cut with
    | some n => s.current.drop (s.current.length - n)
    | none   => s.current
  (if s.isStarted || s.walls then last.reverse :: s.fields else s.fields).reverse

/-- The separators if none are set. -/
def usualSeparators : Text := text " \t\n"

/-- The fields of bits. -/
def splitBits (separators : Option Text) (bits : List Bit) : List (List FieldChar) :=
  (bits.foldl (Splitting.step (separators.getD usualSeparators)) (.start none)).finish

/-- At most so many fields of bits; the last one holds all that is left. -/
def splitLimited (separators : Option Text) (most : Nat) (bits : List Bit) : List Text :=
  (bits.foldl (Splitting.step (separators.getD usualSeparators)) (.start (some most))).finish.map fun f => f.map (·.1)

/-! ## Paths -/

/-- The signs of a pattern; a backslash that is not quoted takes away the meaning of the next character. -/
def patternMarks : List FieldChar → List Mark
  | ('\\', false) :: (c, _) :: r => (c, false) :: patternMarks r
  | (c, isQuoted) :: r           => (c, !isQuoted) :: patternMarks r
  | []                           => []

/-- The glob that a pattern of the shell spells. -/
def globOf (marks : List Mark) : Glob := Glob.read ['!'] marks

/-- The marks between slashes. -/
def markedNames : List Mark → List (List Mark)
  | []     => [[]]
  | m :: r =>
    match m.1, markedNames r with
    | '/', ns      => [] :: ns
    | _,   n :: ns => (m :: n) :: ns
    | _,   []      => [[m]]

/-- The names in a folder, those that lead to itself and upwards first. -/
def namesIn (d : Disk) (dir : Place) (path : Text) : List Text :=
  match d.find dir (pathOf (if path.isEmpty then ['.'] else path)) with
  | .ok (p, .folder) => ['.'] :: text ".." :: (d.children p).map fun (n, _) => argumentOf n
  | _                => []

/-- The paths that lead on from a path through names that match patterns. -/
def pathsFrom (d : Disk) (dir : Place) : List (List Mark) → (isPattern : Bool) → Text → List Text
  | [],      isPattern, path =>
    if isPattern || (d.findEntry dir (pathOf path)).toOption.isSome then [path] else []
  | n :: ns, isPattern, path =>
    let slash : Text := if ns.isEmpty then [] else ['/']
    let glob := globOf n
    if glob.isLiteral then pathsFrom d dir ns (isPattern && n.isEmpty && !ns.isEmpty) (path ++ glob.letters ++ slash)
    else
      let found := (namesIn d dir path).filter fun name =>
        (name.head? != some '.' || (n.head?.map (·.1)) == some '.') && glob.fits name
      found.flatMap fun name => pathsFrom d dir ns ns.isEmpty (path ++ name ++ slash)

/-- The field is a pattern, if it is one that paths can match. -/
def isPattern (f : List FieldChar) : Bool := f.any fun (c, isQuoted) => !isQuoted && c ∈ ['*', '?', '[']

/-- The paths that a field stands for: itself if there is no other. -/
def pathsOf (d : Disk) (dir : Place) (f : List FieldChar) : List Text :=
  let plain := f.map (·.1)
  if !isPattern f then [plain]
  else
    match sortBy before (pathsFrom d dir (markedNames (patternMarks f)) false []) with
    | []    => [plain]
    | paths => paths
where
  /-- The texts in order. -/
  sortBy (less : Text → Text → Bool) (ts : List Text) : List Text := ts.mergeSort fun a b => !less b a

/-! ## Expansion -/

/-- What a word is expanded for. -/
structure Purpose where
  /-- It is split into fields. -/
  splits : Bool
  /-- Its characters are split like values. -/
  isValue : Bool
  /-- Home folders may follow colons. -/
  isList : Bool

/-- An argument. -/
def forArgument : Purpose := ⟨true, false, false⟩

/-- A text. -/
def forText : Purpose := ⟨false, false, false⟩

/-- The value of a variable. -/
def forValue : Purpose := ⟨false, false, true⟩

/-- The values of a parameter. -/
inductive Values where
  | missing
  | one (t : Text)
  | many (ts : List Text)

/-- The letters of options in the order in which they are shown. -/
def optionLetters : List Char := text "efIimnsvVEabCu"

/-- The values of a parameter. -/
def valuesOf (name : Text) : Sh Values := do
  let s ← shell
  match name with
  | ['@'] => return .many s.params
  | ['*'] => return .many s.params
  | ['#'] => return .one (ofNat s.params.length)
  | ['?'] => return .one (ofNat s.status)
  | ['$'] => return .one (ofNat processId)
  | ['!'] => return (s.lastJob.map fun n => Values.one (ofNat n)).getD .missing
  | ['-'] => return .one (optionLetters.reverse.filter fun c => s.options.elem c)
  | name  =>
    if name.all Char.isDigit then
      match ofDigits 10 name with
      | 0     => return .one s.name
      | n + 1 => return (s.params[n]?.map Values.one).getD .missing
    else return ((← value? name).map Values.one).getD .missing
where
  /-- The number by which the outermost shell is known. -/
  processId : Nat := 4242

/-- The sign that joins parameters. -/
def joint : Sh Text := do return ((← separators).getD [' ']).take 1

/-- The values are missing. -/
def Values.isMissing (orEmpty : Bool) (joint : Text) : Values → Bool
  | .missing => true
  | .one t   => orEmpty && t.isEmpty
  | .many ts => orEmpty && (joinWith joint ts).isEmpty

/-- The bits of values. -/
def Values.bits (p : Purpose) (isAt isQuoted : Bool) (joint : Text) : Values → List Bit
  | .missing => []
  | .one t   => if isQuoted then valueBits true t else .region false :: valueBits false t
  | .many ts =>
    if isQuoted then
      if isAt && p.splits then
        if ts.isEmpty then [] else .region true :: joined .wall (ts.map (valueBits true))
      else valueBits true (joinWith joint ts)
    else if p.splits then .region false :: joined .gap (ts.map (valueBits false))
    else valueBits false (joinWith joint ts)
where
  /-- Rows of bits with one between them. -/
  joined (b : Bit) : List (List Bit) → List Bit
    | []      => []
    | [x]     => x
    | x :: xs => x ++ b :: joined b xs

/-- The text of values that is changed as one: of those that are split, this is only the first. -/
def Values.whole (p : Purpose) (isAt isQuoted : Bool) (joint : Text) : Values → Text
  | .missing => []
  | .one t   => t
  | .many ts => if p.splits && (isAt || !isQuoted) then ts.head?.getD [] else joinWith joint ts

/-- A value without what matches a pattern at its start or its end. -/
def cutValue (atEnd longest : Bool) (g : Glob) (t : Text) : Text :=
  let lengths := List.range (t.length + 1)
  -- How much stays, in the order in which this is tried.
  let keeps := if atEnd then (if longest then lengths else lengths.reverse) else lengths
  if atEnd then
    match keeps.find? fun n => g.fits (t.drop n) with
    | some n => t.take n
    | none   => t
  else
    match (if longest then lengths.reverse else lengths).find? fun n => g.fits (t.take n) with
    | some n => t.drop n
    | none   => t

/-- A text without the ends of lines at its end. -/
def withoutLastLines (t : Text) : Text := (t.reverse.dropWhile (· == '\n')).reverse

/-- The home folder that is named at the start of a word, with what follows it. -/
def homeOf (p : Purpose) (w : Word) : Sh (Option (Text × Word)) := do
  match w with
  | .char '~' false :: r =>
    let ends (c : Char) : Bool := c == '/' || (p.isList && c == ':')
    let (name, rest) := Word.bareStart (fun c => !ends c) r
    let isEnd : Bool := match rest with
      | []                => true
      | .char c false :: _ => ends c
      | _                 => false
    if !isEnd then return none
    let home ← if name.isEmpty then value? (text "HOME")
      else pure (if name = text "root" then some (text "/root") else none)
    return home.bind fun h => if h.isEmpty then none else some (h, rest)
  | _                    => return none

/-- Complain that a parameter is missing. -/
def complainMissing {α : Type} (name : Text) (orEmpty : Bool) (message : Option Text) : Sh α :=
  fail (name ++ text ": " ++ match message with
    | some m => m
    | none   => text "parameter not set" ++ if orEmpty then text " or null" else [])

mutual

/-- The bits of a word. `run` gives what a script writes; `mayBeHome` holds where a home folder may be named, and
    `afterPlain` if the part before was a plain character. `fuel` bounds the steps. -/
def expandParts (run : Script → Sh Text) (p : Purpose) :
    Nat → (mayBeHome afterPlain : Bool) → Word → Sh (List Bit)
  | 0,        _,         _,          _ => return []
  | fuel + 1, mayBeHome, afterPlain, w => do
    match ← if mayBeHome then homeOf p w else pure none with
    | some (home, rest) => return valueBits true home ++ (← expandParts run p fuel false false rest)
    | none              =>
      match w with
      | []                     => return []
      | .char c isQuoted :: ps => do
        let rest ← expandParts run p fuel (p.isList && c == ':' && !isQuoted) (!isQuoted) ps
        let bit := Bit.char c (p.isValue && !isQuoted) isQuoted
        return if p.isValue && !isQuoted && !afterPlain then .region false :: bit :: rest else bit :: rest
      | .mark :: .parameter ['@'] .keep false [] true :: .mark :: ps => do
        let bits ← expandPart run p fuel (.parameter ['@'] .keep false [] true)
        return bits ++ (← expandParts run p fuel false false ps)
      | .mark :: ps            => return .mark :: (← expandParts run p fuel false false ps)
      | part :: ps             => do
        let bits ← expandPart run p fuel part
        return bits ++ (← expandParts run p fuel false false ps)

/-- The bits of what is put into a word. -/
def expandPart (run : Script → Sh Text) (p : Purpose) : Nat → Part → Sh (List Bit)
  | 0,        _    => return []
  | fuel + 1, part => do
    let put (isQuoted : Bool) (t : Text) : List Bit :=
      if isQuoted then valueBits true t else .region false :: valueBits false t
    let textOf (w : Word) : Sh Text := do
      return bitsText (← expandParts run ⟨false, false, false⟩ fuel true false w)
    match part with
    | .char c isQuoted      => return [.char c false isQuoted]
    | .mark                 => return [.mark]
    | .output body isQuoted => return put isQuoted (withoutLastLines (← run body))
    | .number w isQuoted    => do
      let n ← arithmetic (bitsText (← expandParts run forText fuel false false w))
      return put isQuoted (ofInt n.toInt)
    | .parameter name change orEmpty word isQuoted => do
      if change = .unknown then fail (text "Bad substitution")
      let values ← valuesOf name
      let joint ← joint
      let missing := values.isMissing orEmpty joint
      let isAt := name == ['@']
      let kept := values.bits p isAt isQuoted joint
      let other : Sh (List Bit) :=
        expandParts run { p with isValue := p.splits && !isQuoted } fuel true false word
      match change with
      | .orElse   => if missing then other else return kept
      | .ifSet    => if missing then return [] else other
      | .orAssign => do
        if !missing then return kept
        let t ← textOf word
        assign name t
        return put isQuoted t
      | .orFail   => do
        if !missing then return kept
        let message ← if word.isEmpty then pure none else do pure (some (← textOf word))
        complainMissing name orEmpty message
      | change    => do
        if missing && (← hasOption 'u') then complainMissing name false none
        match change with
        | .length           =>
          let size := match values with
            | .many ts => (joinWith (if p.splits && joint.isEmpty && !isQuoted then [' '] else joint) ts).length
            | values   => (values.whole p isAt isQuoted joint).length
          return put isQuoted (ofNat size)
        | .cut atEnd longest =>
          if missing then return put isQuoted []
          let pattern ← expandParts run forText fuel true false word
          let marks := patternMarks (pattern.filterMap fun b => match b with
            | .char c _ q => some (c, q)
            | _           => none)
          return put isQuoted (cutValue atEnd longest (globOf marks) (values.whole p isAt isQuoted joint))
        | _                  => return kept

end

/-- How many steps it may take to expand a word. -/
def expandFuel : Nat := 100000

/-- A word as one text. -/
def expandText (run : Script → Sh Text) (w : Word) : Sh Text := do
  return bitsText (← expandParts run forText expandFuel true false w)

/-- A text that stands in the script, expanded. -/
def expandDocument (run : Script → Sh Text) (w : Word) : Sh Text := do
  return bitsText (← expandParts run forText expandFuel false false w)

/-- The value that is assigned to a variable. -/
def expandValue (run : Script → Sh Text) (w : Word) : Sh Text := do
  return bitsText (← expandParts run forValue expandFuel true false w)

/-- A word as a pattern. -/
def expandPattern (run : Script → Sh Text) (w : Word) : Sh Glob := do
  let bits ← expandParts run forText expandFuel true false w
  return globOf (patternMarks (bits.filterMap fun b => match b with
    | .char c _ q => some (c, q)
    | _           => none))

/-- A word as arguments. -/
def expandWord (run : Script → Sh Text) (w : Word) : Sh (List Text) := do
  let bits ← expandParts run forArgument expandFuel true false w
  let fields := splitBits (← separators) bits
  if ← hasOption 'f' then return fields.map fun f => f.map (·.1)
  let s ← get
  return fields.flatMap (pathsOf s.world.disk s.shell.dir)

/-- A word as arguments, or as one assignment. -/
def expandAssigned (run : Script → Sh Text) (w : Word) : Sh (List Text) := do
  match Word.assigned? w with
  | some (name, value) => return [name ++ '=' :: (← expandValue run value)]
  | none               => expandWord run w

end JavaMend.Host.Shell
