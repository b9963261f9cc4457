import JavaMend.Host.Options

/-!
# `Host.Files.Names` — tools on paths

## Contents
- **Parts.** `lastName`, `folderPart`; `basename`, `dirname`.
- **Resolving.** `Existing`, `resolve`; `readlink`, `realpath`, `pwd`.
- **Temporary names.** `mktemp`.
-/

namespace JavaMend.Host

open JavaMend Text

/-! ## Parts -/

/-- A path without the slashes at its end; the root keeps one. -/
def withoutSlashes (path : Text) : Text :=
  match (path.reverse.dropWhile (· == '/')).reverse with
  | [] => path.take 1
  | r  => r

/-- The last name of a path. -/
def lastName (path : Text) : Text :=
  let bare := withoutSlashes path
  if bare = ['/'] then bare else (bare.reverse.takeWhile (· != '/')).reverse

/-- A path without its last name. -/
def folderPart (path : Text) : Text :=
  let bare := withoutSlashes path
  let up := (bare.reverse.dropWhile (· != '/')).reverse
  if up.isEmpty then (if bare = ['/'] then bare else ['.']) else withoutSlashes up

/-- A path of one name is its last name. -/
theorem lastName_of_name {name : Text} (h : '/' ∉ name) : lastName name = name := by
  have hr : '/' ∉ name.reverse := by simpa using h
  have keep : ∀ {l : Text}, '/' ∉ l → l.dropWhile (· == '/') = l ∧ l.takeWhile (· != '/') = l := by
    intro l hl
    induction l with
    | nil => simp
    | cons c l ih =>
      have hc : c ≠ '/' := fun e => hl (by simp [e])
      have hl' : '/' ∉ l := fun e => hl (by simp [e])
      exact ⟨by simp [hc], by simp [hc, (ih hl').2]⟩
  cases name with
  | nil => rfl
  | cons c r =>
    have hw : withoutSlashes (c :: r) = c :: r := by
      unfold withoutSlashes
      rw [(keep hr).1, List.reverse_reverse]
    have hc : c ≠ '/' := fun e => h (by simp [e])
    unfold lastName
    simp only [hw]
    rw [if_neg (fun e => hc (List.cons.inj e).1), (keep hr).2, List.reverse_reverse]

/-- A name without an ending, unless it is the whole name. -/
def withoutEnding (ending name : Text) : Text :=
  match dropSuffix? ending name with
  | some [] => name
  | some r  => r
  | none    => name

/-- Print the last names of paths. -/
def basename : Tool := Job.tool fun args => do
  let spec : OptionSpec :=
    ⟨"az", "s", "", [("multiple", 'a'), ("suffix", 's'), ("zero", 'z')], true⟩
  let (options, paths) ← takeOptions 1 spec args
  let mark := if isGiven options 'z' then '\x00' else '\n'
  let severally := isGiven options 'a' || isGiven options 's'
  match paths with
  | []               => misused 1 (text "missing operand")
  | path :: rest     =>
    if severally then
      for p in paths do print (withoutEnding ((given? options 's').getD []) (lastName p) ++ [mark])
    else match rest with
      | []         => print (lastName path ++ [mark])
      | [ending]   => print (withoutEnding ending (lastName path) ++ [mark])
      | _ :: x :: _ => misused 1 (text "extra operand " ++ quoted x)

/-- Print paths without their last names. -/
def dirname : Tool := Job.tool fun args => do
  let (options, paths) ← takeOptions 1 ⟨"z", "", "", [("zero", 'z')], false⟩ args
  if paths.isEmpty then misused 1 (text "missing operand")
  for p in paths do print (folderPart p ++ [if isGiven options 'z' then '\x00' else '\n'])

/-! ## Resolving -/

/-- How much of a path has to be there. -/
inductive Existing where
  | all
  | allButLast
  | nothing
deriving DecidableEq

/-- The path without links that a path leads to, as far as something is there. -/
def resolve (d : Disk) (dir : Place) (existing : Existing) (path : Text) : Except PathFault Text :=
  match d.find dir (pathOf path) with
  | .ok (place, _)  => .ok (argumentOf (Disk.placeText place))
  | .error .missing =>
    match existing with
    | .all        => .error .missing
    | .allButLast => (d.locate dir (pathOf (withoutSlashes path))).map fun place => argumentOf (Disk.placeText place)
    | .nothing    =>
      .ok (match d.locate dir (pathOf (withoutSlashes path)) with
        | .ok place => argumentOf (Disk.placeText place)
        | .error _  =>
          argumentOf (Disk.placeText (Disk.startOf dir path ++ (Disk.components (pathOf path)))))
  | .error e        => .error e

/-- Print where links lead. -/
def readlink : Tool := Job.tool fun args => do
  let spec : OptionSpec :=
    ⟨"femnqsvz", "", "",
      [("canonicalize", 'f'), ("canonicalize-existing", 'e'), ("canonicalize-missing", 'm'), ("no-newline", 'n'),
       ("quiet", 'q'), ("silent", 's'), ("verbose", 'v'), ("zero", 'z')], false⟩
  let (options, paths) ← takeOptions 1 spec args
  if paths.isEmpty then misused 1 (text "missing operand")
  let mark : Text := if isGiven options 'n' && paths.length == 1 then []
    else if isGiven options 'z' then ['\x00'] else ['\n']
  let existing? : Option Existing := ((options.reverse.map (·.1)).find? fun c => c ∈ text "fem").map fun c =>
    if c = 'e' then .all else if c = 'f' then .allButLast else .nothing
  let dir := (← read).dir
  for p in paths do
    let d ← diskNow
    let found : Except PathFault Text := match existing? with
      | some existing => resolve d dir existing p
      | none          =>
        match d.findEntry dir (pathOf p) with
        | .ok (_, .link target) => .ok (argumentOf target)
        | .ok _                 => .error .invalid
        | .error e              => .error e
    match found with
    | .ok t    => print (t ++ mark)
    | .error e => do
      if isGiven options 'v' then blame (aboutFile p e)
      setCode 1

/-- Print the paths without links that paths lead to. -/
def realpath : Tool := Job.tool fun args => do
  let spec : OptionSpec :=
    ⟨"emqsLPz", "", "",
      [("canonicalize-existing", 'e'), ("canonicalize-missing", 'm'), ("quiet", 'q'), ("strip", 's'),
       ("no-symlinks", 's'), ("logical", 'L'), ("physical", 'P'), ("zero", 'z')], false⟩
  let (options, paths) ← takeOptions 1 spec args
  if paths.isEmpty then misused 1 (text "missing operand")
  let existing : Existing :=
    if isGiven options 'e' then .all else if isGiven options 'm' then .nothing else .allButLast
  for p in paths do
    match resolve (← diskNow) (← read).dir existing p with
    | .ok t    => print (t ++ [if isGiven options 'z' then '\x00' else '\n'])
    | .error e => do
      if !isGiven options 'q' then blame (aboutFile p e)
      setCode 1

/-- Print the path of the folder. -/
def pwd : Tool := Job.tool fun args => do
  let (_, rest) ← takeOptions 1 ⟨"LP", "", "", [("logical", 'L'), ("physical", 'P')], false⟩ args
  if !rest.isEmpty then blame (text "ignoring non-option arguments")
  print (argumentOf (Disk.placeText (← read).dir) ++ ['\n'])

/-! ## Temporary names -/

/-- A number in so many letters. -/
def letterName : Nat → Nat → Text
  | 0,     _ => []
  | n + 1, i => letterName n (i / 26) ++ [Char.ofNat (0x61 + i % 26)]

/-- Make a file or a folder with a new name. -/
def mktemp : Tool := Job.tool fun args => do
  let spec : OptionSpec :=
    ⟨"dqut", "", "p", [("directory", 'd'), ("quiet", 'q'), ("dry-run", 'u'), ("tmpdir", 'p')], false⟩
  let (options, rest) ← takeOptions 1 spec args
  let template := rest.head?.getD (text "tmp.XXXXXXXXXX")
  let count := (template.reverse.takeWhile (· == 'X')).length
  if count < 3 then quitWith 1 (text "too few X's in template " ++ quoted template)
  let folder := ((given? options 'p').filter fun t => !t.isEmpty).getD
    (((← read).env.lookup (text "TMPDIR")).filter (fun t => !t.isEmpty) |>.getD (text "/tmp"))
  let isBelow := rest.isEmpty || isGiven options 'p' || isGiven options 't'
  let stem := template.take (template.length - count)
  let path (i : Nat) : Text :=
    let name := stem ++ letterName count i
    if isBelow then folder ++ '/' :: name else name
  let d ← diskNow
  let dir := (← read).dir
  let free := (List.range 1000).find? fun i => (d.findEntry dir (pathOf (path i))).toOption.isNone
  let name := path (free.getD 0)
  let fault ← change fun d =>
    if isGiven options 'u' then .ok d
    else if isGiven options 'd' then d.makeFolder dir (pathOf name)
    else d.writeFile dir (pathOf name) []
  match fault with
  | none   => print (name ++ ['\n'])
  | some e => do
    if !isGiven options 'q' then
      blame (text "failed to create " ++ (if isGiven options 'd' then text "directory" else text "file") ++
        text " via template " ++ quoted (if isBelow then folder ++ '/' :: template else template) ++ text ": " ++ e.message)
    quit 1

end JavaMend.Host
