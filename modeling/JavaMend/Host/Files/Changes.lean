import JavaMend.Host.Files.Names
import JavaMend.Host.Streams.Characters

/-!
# `Host.Files.Changes` — tools that change the disk

Folders are made and removed, and files are copied, moved and linked. A tool goes on after a complaint about one of its
operands.

## Contents
- **Trees.** `Disk.moveTree`, `entriesBelow`.
- **Folders.** `mkdir`, `rmdir`.
- **Removing.** `rm`.
- **Copying and moving.** `Target`, `takeTarget`; `cp`, `mv`.
- **Links.** `ln`.
- **Modes.** `readMode?`, `chmod`; `touch`.
-/

namespace JavaMend

namespace Disk

/-- A place below one place, as it is below another one. -/
def rebased (old new : Place) (p : Place) : Place := if old.isPrefixOf p then new ++ p.drop old.length else p

/-- What is at a place and below it is moved to another place, where nothing is left of what was there. -/
def moveTree (d : Disk) (old new : Place) : Disk :=
  ⟨((d.remove new).items.map fun (p, item) => (rebased old new p, item))⟩

end Disk

namespace Host

open JavaMend Text

/-! ## Folders -/

/-- A complaint about an operand, with what was to be done. -/
def refuse (deed path : Text) (fault : PathFault) : Job Unit := do
  blame (deed ++ ' ' :: quoted path ++ text ": " ++ fault.message)
  setCode 1

/-- The paths that lead to a path, from the first one on: with one name, with two, and so on. -/
def pathsTo (path : Text) : List Text :=
  let ends := (List.range path.length).filter fun i =>
    path[i]? == some '/' && 0 < i && path[i - 1]? != some '/'
  ends.map (fun i => path.take i) ++ if path.getLast? == some '/' then [] else [path]

/-- The mode of a file that is written as digits, or as letters that change it. -/
def readMode? (old : Nat) (isFolder : Bool) (t : Text) : Option Nat :=
  if t.isEmpty then none
  else if t.all isOctal then
    let n := ofDigits 8 t
    if n ≤ 0o7777 then some n else none
  else (splitOn ',' t).foldlM clause old
where
  /-- The bits of those who are named: owner, group and others. -/
  whoMask (who : Text) : Nat :=
    who.foldl (fun m c => m ||| (if c = 'u' then 0o700 else if c = 'g' then 0o070 else if c = 'o' then 0o007 else 0o777)) 0
  /-- One clause of letters. -/
  clause (mode : Nat) (t : Text) : Option Nat :=
    let who := t.takeWhile fun c => c ∈ text "ugoa"
    let rest := t.drop who.length
    if rest.isEmpty then none else steps (rest.length + 1) who mode rest
  /-- The steps of a clause. -/
  steps : Nat → Text → Nat → Text → Option Nat
    | 0,        _,   mode, _ => some mode
    | fuel + 1, who, mode, t =>
      match t with
      | []      => some mode
      | op :: r =>
        if op ∉ ['+', '-', '='] then none
        else
          let letters := r.takeWhile fun c => c ∉ ['+', '-', '=']
          if letters.any fun c => c ∉ text "rwxXstugo" then none
          else
            let mask := if who.isEmpty then 0o777 else whoMask who
            let spread (n : Nat) : Nat := n * 0o111
            let bits := letters.foldl (fun b c => b ||| spread (match c with
              | 'r' => 4
              | 'w' => 2
              | 'x' => 1
              | 'X' => if isFolder || mode &&& 0o111 != 0 then 1 else 0
              | 'u' => mode / 64 % 8
              | 'g' => mode / 8 % 8
              | 'o' => mode % 8
              | _   => 0)) 0
            let chosen := bits &&& mask &&& (if who.isEmpty then 0o755 else 0o777)
            let next := match op with
              | '+' => mode ||| chosen
              | '-' => mode &&& (0o7777 - chosen)
              | _   => (mode &&& (0o7777 - mask)) ||| chosen
            steps fuel who next (r.drop letters.length)

/-- Make folders. -/
def mkdir : Tool := Job.tool fun args => do
  let spec : OptionSpec :=
    ⟨"pvZ", "m", "", [("parents", 'p'), ("verbose", 'v'), ("mode", 'm')], false⟩
  let (options, paths) ← takeOptions 1 spec args
  if paths.isEmpty then misused 1 (text "missing operand")
  match given? options 'm' with
  | some m => if (readMode? 0o777 true m).isNone then quitWith 1 (text "invalid mode " ++ quoted m)
  | none   => pure ()
  let dir := (← read).dir
  let make (path : Text) : Job (Option PathFault) := do
    let fault ← change fun d => d.makeFolder dir (pathOf path)
    if fault.isNone && isGiven options 'v' then
      print ((← read).name ++ text ": created directory " ++ quoted path ++ ['\n'])
    return fault
  for path in paths do
    if isGiven options 'p' then
      let steps := if path.isEmpty then [path] else pathsTo path
      let mut going := true
      for p in steps do
        if going && !(← diskNow).leadsToFolder dir (pathOf p) then
          match ← make p with
          | none   => pure ()
          | some e => do
            refuse (text "cannot create directory") p (if e = .taken && p != steps.getLast?.getD p then .notFolder else e)
            going := false
    else match ← make path with
      | none   => pure ()
      | some e => refuse (text "cannot create directory") path e

/-- Remove an empty folder. -/
def removeFolder (d : Disk) (dir : Place) (path : Text) : Except PathFault Disk :=
  match d.findEntry dir (pathOf path) with
  | .error e           => .error e
  | .ok (place, .folder) =>
    if lastName path = ['.'] then .error .invalid
    else if (d.children place).isEmpty then .ok (d.remove place) else .error .notEmpty
  | .ok _              => .error .notFolder

/-- Remove empty folders. -/
def rmdir : Tool := Job.tool fun args => do
  let spec : OptionSpec :=
    ⟨"pvi", "", "", [("parents", 'p'), ("verbose", 'v'), ("ignore-fail-on-non-empty", 'i')], false⟩
  let (options, paths) ← takeOptions 1 spec args
  if paths.isEmpty then misused 1 (text "missing operand")
  let dir := (← read).dir
  for path in paths do
    let mut going := true
    for p in if isGiven options 'p' then (pathsTo (withoutSlashes path)).reverse else [path] do
      if going then
        if isGiven options 'v' then print ((← read).name ++ text ": removing directory, " ++ quoted p ++ ['\n'])
        match ← change fun d => removeFolder d dir p with
        | none   => pure ()
        | some e => do
          going := false
          if e ≠ .notEmpty || !isGiven options 'i' then
            refuse (if p = path then text "failed to remove" else text "failed to remove directory") p e

/-! ## Removing -/

/-- The names that lead to what is in a folder, with what is there: what is in a folder stands after it. -/
def entriesBelow (d : Disk) (place : Place) : List (List Text × Item) :=
  (d.items.filterMap fun (q, item) => (Disk.below? place q).map fun names => (names, item)).foldr
    Disk.insertInOrder []

/-- A path that leads on through names. -/
def pathThrough (path : Text) (names : List Text) : Text :=
  let path := if path.getLast? = some '/' then path.dropLast else path
  names.foldl (fun p n => p ++ '/' :: argumentOf n) path

/-- The folders in a list after what is in them. -/
def innerFirst : Nat → List (List Text × Item) → List (List Text × Item)
  | 0,        _  => []
  | _ + 1,    [] => []
  | fuel + 1, e :: es =>
    let inside := es.takeWhile fun f => e.1.isPrefixOf f.1
    innerFirst fuel inside ++ e :: innerFirst fuel (es.drop inside.length)

/-- Remove files and folders. -/
def rm : Tool := Job.tool fun args => do
  let spec : OptionSpec :=
    ⟨"rRfivdI", "", "",
      [("recursive", 'r'), ("force", 'f'), ("interactive", 'i'), ("verbose", 'v'), ("dir", 'd')], false⟩
  let (options, paths) ← takeOptions 1 spec args
  let isForced := isGiven options 'f'
  if paths.isEmpty then
    if isForced then return
    misused 1 (text "missing operand")
  let isDeep := isGiven options 'r' || isGiven options 'R'
  let tell (kind path : Text) : Job Unit := do
    if isGiven options 'v' then print (kind ++ quoted path ++ ['\n'])
  let dir := (← read).dir
  for path in paths do
    let d ← diskNow
    match d.findEntry dir (pathOf path) with
    | .error e => if !(isForced && (e == .missing || e == .notFolder)) then refuse (text "cannot remove") path e
    | .ok (place, .folder) =>
      if isDeep && (lastName path = ['.'] || lastName path = text "..") then do
        blame (text "refusing to remove '.' or '..' directory: skipping " ++ quoted path)
        setCode 1
      else if isDeep && place.isEmpty then do
        blame (text "it is dangerous to operate recursively on '/'")
        blame (text "use --no-preserve-root to override this failsafe")
        setCode 1
      else if isDeep then do
        let inside := entriesBelow d place
        for (names, item) in innerFirst (inside.length + 1) inside do
          tell (if item = .folder then text "removed directory " else text "removed ") (pathThrough path names)
        tell (text "removed directory ") path
        modify fun w => { w with disk := d.remove place }
      else if isGiven options 'd' && (d.children place).isEmpty then do
        tell (text "removed directory ") path
        modify fun w => { w with disk := d.remove place }
      else refuse (text "cannot remove") path (if isGiven options 'd' then .notEmpty else .isFolder)
    | .ok (place, _)       => do
      tell (text "removed ") path
      modify fun w => { w with disk := d.remove place }

/-! ## Copying and moving -/

/-- Where things are put: each under its own name in a folder, or one under a new name. -/
inductive Target where
  | folder (path : Text)
  | name (path : Text)

/-- The path of something at a target. -/
def Target.pathFor (source : Text) : Target → Text
  | .folder path => if path.getLast? = some '/' then path ++ lastName source else path ++ '/' :: lastName source
  | .name path   => path

/-- The sources and the target that operands name. -/
def takeTarget (options : Options) (operands : List Text) (followsLast : Bool) : Job (List Text × Target) := do
  let dir := (← read).dir
  let d ← diskNow
  let isFolder (path : Text) : Bool :=
    d.leadsToFolder dir (pathOf path) && (followsLast || match d.findEntry dir (pathOf path) with
      | .ok (_, .link _) => false
      | _                => true)
  match given? options 't', operands with
  | some _,    []     => misused 1 (text "missing file operand")
  | some path, os     =>
    if isFolder path then return (os, .folder path)
    else quitWith 1 (text "target directory " ++ quoted path ++ text ": " ++
      (match d.find dir (pathOf path) with
      | .error e => e.message
      | .ok _    => PathFault.notFolder.message))
  | none,      []     => misused 1 (text "missing file operand")
  | none,      [one]  => misused 1 (text "missing destination file operand after " ++ quoted one)
  | none,      os     =>
    let last := os.getLast?.getD []
    let sources := os.dropLast
    if isGiven options 'T' then
      match sources with
      | [_] => return (sources, .name last)
      | _   => misused 1 (text "extra operand " ++ quoted ((os[2]?).getD []))
    else if isFolder last then return (sources, .folder last)
    else match sources with
      | [_] => return (sources, .name last)
      | _   => quitWith 1 (text "target " ++ quoted last ++ text ": " ++
        (match d.find dir (pathOf last) with
        | .error e => e.message
        | .ok _    => PathFault.notFolder.message))

/-- Copy something to a place: a folder with all that is in it. What is done is told. `fuel` bounds the depth. -/
def copyItem (tell : Text → Text → Job Unit) (skips follows deep : Bool) : Nat → Text → Text → Job Unit
  | 0,        _,      _    => return
  | fuel + 1, source, path => do
    let dir := (← read).dir
    let d ← diskNow
    match if follows then d.find dir (pathOf source) else d.findEntry dir (pathOf source) with
    | .error e          => refuse (text "cannot stat") source e
    | .ok (place, item) =>
      let old := d.find? dir (pathOf path)
      let isSame := old.any fun e => e.1 == place
      let problem (complaint : Text) : Job Unit := do
        blame complaint
        setCode 1
      if item = .folder && !deep then problem (text "-r not specified; omitting directory " ++ quoted source)
      else if isSame then
        if item = .folder then problem (text "cannot copy a directory, " ++ quoted source ++ text ", into itself, " ++ quoted path)
        else problem (quoted source ++ text " and " ++ quoted path ++ text " are the same file")
      else if old.isSome && skips then return
      else match item, old with
        | .folder,    some (_, .folder) => do
          for (name, _) in d.children place do
            copyItem tell skips follows deep fuel (pathThrough source [name]) (pathThrough path [name])
        | .folder,    some _            =>
          problem (text "cannot overwrite non-directory " ++ quoted path ++ text " with directory " ++ quoted source)
        | .folder,    none              => do
          let target := d.locate dir (pathOf path)
          if target.toOption.any fun q => place.isPrefixOf q then
            problem (text "cannot copy a directory, " ++ quoted source ++ text ", into itself, " ++ quoted path)
          else match ← change fun d => d.makeFolder dir (pathOf (withoutSlashes path)) with
            | some e => refuse (text "cannot create directory") path e
            | none   => do
              tell source path
              for (name, _) in d.children place do
                copyItem tell skips follows deep fuel (pathThrough source [name]) (pathThrough path [name])
        | _,          some (_, .folder) =>
          problem (text "cannot overwrite directory " ++ quoted path ++ text " with non-directory")
        | .link goal, _                 =>
          match d.locateEntry dir (pathOf path) with
          | .error e => refuse (text "cannot create symbolic link") path e
          | .ok q    => do
            modify fun w => { w with disk := d.put q (.link goal) }
            tell source path
        | item,       old               => do
          let (data, x) := match item with
            | .file data x => (data, x)
            | _            => ([], false)
          let isDangling := old.isNone && match d.findEntry dir (pathOf path) with
            | .ok (_, .link _) => true
            | _                => false
          if isDangling then problem (text "not writing through dangling symlink " ++ quoted path)
          else match d.writeFile dir (pathOf path) data with
            | .error e =>
              refuse (text "cannot create regular file") path
                (if path.getLast? = some '/' && old.isNone then .notFolder else e)
            | .ok d'   => do
              let made := match old, d'.find? dir (pathOf path) with
                | none, some (q, .file data _) => d'.put q (.file data x)
                | _,    _                      => d'
              modify fun w => { w with disk := made }
              tell source path

/-- How deep folders may stand in one another. -/
def depthLimit : Nat := 1000

/-- Long names that are common to tools that copy and move. -/
def copyNames : List (String × Char) :=
  [("target-directory", 't'), ("no-target-directory", 'T'), ("verbose", 'v'), ("no-clobber", 'n'), ("force", 'f'),
   ("interactive", 'i'), ("update", 'u')]

/-- Tell that something became something else. -/
def tellPair (options : Options) (word sign source path : Text) : Job Unit := do
  if isGiven options 'v' then print (word ++ quoted source ++ sign ++ quoted path ++ ['\n'])

/-- Copy files and folders. -/
def cp : Tool := Job.tool fun args => do
  let spec : OptionSpec :=
    { flags := "rRavfnipdLPHTux", valued := "t", optional := "", inOrder := false
      long := copyNames ++ [("recursive", 'r'), ("archive", 'a'), ("dereference", 'L'), ("no-dereference", 'P'),
        ("preserve", 'p')] }
  let (options, operands) ← takeOptions 1 spec args
  let deep := isGiven options 'r' || isGiven options 'R' || isGiven options 'a'
  let follows := match (options.reverse.map (·.1)).find? fun c => c ∈ text "LPHad" with
    | some 'L' => true
    | some _   => false
    | none     => !deep
  let (sources, target) ← takeTarget options operands true
  if isGiven options 'n' then
    blame (text "warning: behavior of -n is non-portable and may change in future; use --update=none instead")
  let tell := tellPair options [] (text " -> ")
  for s in sources do
    copyItem tell (isGiven options 'n') follows deep depthLimit s (target.pathFor s)

/-- Move files and folders. -/
def mv : Tool := Job.tool fun args => do
  let spec : OptionSpec := ⟨"fivnuTb", "t", "", copyNames, false⟩
  let (options, operands) ← takeOptions 1 spec args
  let (sources, target) ← takeTarget options operands true
  let dir := (← read).dir
  let problem (complaint : Text) : Job Unit := do
    blame complaint
    setCode 1
  for s in sources do
    let path := target.pathFor s
    let d ← diskNow
    match d.findEntry dir (pathOf s) with
    | .error e          => refuse (text "cannot stat") s e
    | .ok (place, item) =>
      let moving := text "cannot move " ++ quoted s ++ text " to"
      match d.locateEntry dir (pathOf (if item = .folder then withoutSlashes path else path)) with
      | .error e =>
        refuse moving path (if path.getLast? = some '/' && e = .missing &&
          (d.locateEntry dir (pathOf (withoutSlashes path))).toOption.isSome then .notFolder else e)
      | .ok q    =>
        if (d.item? q.dropLast).any fun i => i != .folder then refuse moving path .notFolder
        else if (d.item? q.dropLast).isNone then refuse moving path .missing
        else if q = place then problem (quoted s ++ text " and " ++ quoted path ++ text " are the same file")
        else if item = .folder && place.isPrefixOf q then
          problem (text "cannot move " ++ quoted s ++ text " to a subdirectory of itself, " ++ quoted path)
        else if (d.item? q).isSome && isGiven options 'n' then pure ()
        else match item, d.item? q with
          | .folder, some .folder =>
            if (d.children q).isEmpty then do
              modify fun w => { w with disk := d.moveTree place q }
              tellPair options (text "renamed ") (text " -> ") s path
            else refuse moving path .notEmpty
          | .folder, some _       =>
            problem (text "cannot overwrite non-directory " ++ quoted path ++ text " with directory " ++ quoted s)
          | _,       some .folder =>
            problem (text "cannot overwrite directory " ++ quoted path ++ text " with non-directory " ++ quoted s)
          | _,       _            => do
            modify fun w => { w with disk := d.moveTree place q }
            tellPair options (text "renamed ") (text " -> ") s path

/-! ## Links -/

/-- Make links. -/
def ln : Tool := Job.tool fun args => do
  let spec : OptionSpec :=
    { flags := "sfnvTirLPbF", valued := "t", optional := "", inOrder := false
      long := copyNames ++ [("symbolic", 's'), ("no-dereference", 'n'), ("relative", 'r')] }
  let (options, operands) ← takeOptions 1 spec args
  let (sources, target) ← match operands, given? options 't' with
    | [one], none =>
      if isGiven options 'T' then misused 1 (text "missing destination file operand after " ++ quoted one)
      else pure ([one], Target.folder ['.'])
    | os,    _    => takeTarget options os (!isGiven options 'n')
  let dir := (← read).dir
  let isSoft := isGiven options 's'
  for s in sources do
    let path := match target, operands with
      | .folder ['.'], [_] => lastName s
      | t,             _   => t.pathFor s
    let d ← diskNow
    let kind := if isSoft then text "symbolic link" else text "hard link"
    let failing (e : PathFault) : Job Unit := do
      let more := if e = .taken || s.isEmpty = false && isSoft then [] else if isSoft then text " -> " ++ quoted s else text " => " ++ quoted s
      blame (text "failed to create " ++ kind ++ ' ' :: quoted path ++ more ++ text ": " ++ e.message)
      setCode 1
    let item? : Except PathFault Item :=
      if isSoft then if s.isEmpty then .error .missing else .ok (.link (pathOf s))
      else (d.findEntry dir (pathOf s)).map (·.2)
    match item? with
    | .error e    =>
      if isSoft then failing e
      else do
        blame (text "failed to access " ++ quoted s ++ text ": " ++ e.message)
        setCode 1
    | .ok .folder => do
      blame (s ++ text ": hard link not allowed for directory")
      setCode 1
    | .ok item    =>
      match d.locateEntry dir (pathOf path) with
      | .error e => failing e
      | .ok q    =>
        let old := d.item? q
        if (d.item? q.dropLast).isNone then failing .missing
        else if (d.item? q.dropLast).any fun i => i != .folder then failing .notFolder
        else if old = some .folder || (old.isSome && !isGiven options 'f') then failing .taken
        else do
          modify fun w => { w with disk := d.put q item }
          if isGiven options 'v' then
            print (quoted path ++ (if isSoft then text " -> " else text " => ") ++ quoted s ++ ['\n'])

/-! ## Modes -/

/-- Make files that are missing. -/
def touch : Tool := Job.tool fun args => do
  let spec : OptionSpec :=
    ⟨"acfmh", "drt", "", [("no-create", 'c'), ("date", 'd'), ("reference", 'r'), ("no-dereference", 'h')], false⟩
  let (options, paths) ← takeOptions 1 spec args
  if paths.isEmpty then misused 1 (text "missing file operand")
  let dir := (← read).dir
  for path in paths do
    let d ← diskNow
    match d.find dir (pathOf path) with
    | .ok _           => pure ()
    | .error .missing =>
      if !isGiven options 'c' then
        match ← change fun d => d.writeFile dir (pathOf path) [] with
        | none   => pure ()
        | some e => refuse (text "cannot touch") path e
    | .error e        => refuse (text "cannot touch") path e

/-- The argument is a mode, though it looks like options. -/
def isModeArgument (t : Text) : Bool := match t with
  | '-' :: c :: r => (c :: r).all fun c => c ∈ text "rwxXstugoa+-=,"
  | _             => false

/-- Change the modes of files. -/
def chmod : Tool := Job.tool fun args => do
  let modeFirst := args.find? isModeArgument
  let spec : OptionSpec :=
    ⟨"Rvcf", "", "", [("recursive", 'R'), ("verbose", 'v'), ("changes", 'c'), ("silent", 'f'), ("quiet", 'f')], false⟩
  let (options, operands) ← takeOptions 1 spec (match modeFirst with
    | some m => args.erase m
    | none   => args)
  let operands := modeFirst.toList ++ operands
  let isDeep := isGiven options 'R'
  let dir := (← read).dir
  match operands with
  | []         => misused 1 (text "missing operand")
  | [mode]     => misused 1 (text "missing operand after " ++ quoted mode)
  | mode :: ps => do
    if (readMode? 0 false mode).isNone then misused 1 (text "invalid mode: " ++ quoted mode)
    let apply (d : Disk) (place : Place) : Disk :=
      match d.item? place with
      | some (.file data x) =>
        match readMode? (if x then 0o755 else 0o644) false mode with
        | some m => d.put place (.file data (m &&& 0o111 != 0))
        | none   => d
      | _                   => d
    for path in ps do
      let d ← diskNow
      match d.find dir (pathOf path) with
      | .ok (place, .folder) =>
        let below := if isDeep then (entriesBelow d place).map fun e => place ++ e.1 else []
        modify fun w => { w with disk := below.foldl apply d }
      | .ok (place, _)       => modify fun w => { w with disk := apply d place }
      | .error e             => do
        if !isGiven options 'f' then
          if (d.findEntry dir (pathOf path)).toOption.isSome then blame (text "cannot operate on dangling symlink " ++ quoted path)
          else blame (text "cannot access " ++ quoted path ++ text ": " ++ e.message)
        setCode 1

end Host
end JavaMend
