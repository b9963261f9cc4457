import JavaMend.Host.Calculation
import JavaMend.Host.Editor.Run
import JavaMend.Host.Files.Listing
import JavaMend.Host.Launching
import JavaMend.Host.Printing
import JavaMend.Host.Records.Run
import JavaMend.Host.Search
import JavaMend.Host.Shell.Run
import JavaMend.Host.Streams.Fields

/-!
# `Host.Toolbox` — a host of its own

A host that needs no other machine. Its disk has a file for each of its tools, and it runs these files and the scripts
that name a program to interpret them.

## Contents
- **Tools.** `tools`, `toolFile`, `toolIn?`, `machine`.
- **Files that can be run.** `Image`, `imageAt`, `shebang?`.
- **Looking for programs.** `searchPath`, `findImage`.
- **Runs.** `toolbox`.
-/

namespace JavaMend.Host

open JavaMend Text

/-! ## Tools -/

/-- The tools by name. -/
def tools : List (String × Tool) :=
  [("cat", cat), ("tac", tac), ("rev", rev), ("tee", tee), ("head", head), ("tail", tail), ("uniq", uniq), ("nl", nl),
   ("sort", sort), ("cut", cut), ("paste", paste), ("comm", comm), ("join", join), ("tr", tr), ("fold", fold),
   ("expand", expand), ("unexpand", unexpand), ("wc", wc), ("echo", echo), ("printf", printf), ("seq", seq),
   ("yes", yes), ("true", succeed), ("false", fail), ("sleep", sleep), ("grep", grep),
   ("egrep", egrep), ("fgrep", fgrep), ("sed", Editor.sed), ("basename", basename), ("dirname", dirname), ("readlink", readlink),
   ("realpath", realpath), ("pwd", pwd), ("mktemp", mktemp), ("mkdir", mkdir), ("rmdir", rmdir), ("rm", rm), ("cp", cp),
   ("mv", mv), ("ln", ln), ("touch", touch), ("chmod", chmod), ("ls", ls), ("find", find),
   ("xargs", xargs), ("env", envTool), ("printenv", printenv), ("which", whichTool), ("whoami", whoami), ("id", idTool),
   ("uname", uname), ("timeout", timeout), ("nice", nice), ("nohup", nohup), ("setsid", setsid), ("stdbuf", stdbuf),
   ("expr", expr), ("test", testTool), ("[", bracketTool),
   ("awk", Records.awk), ("mawk", Records.awk), ("sh", Shell.shellTool), ("dash", Shell.shellTool), ("bash", Shell.shellTool)]

/-- The start of the files that are tools. -/
def toolMark : Text := text "\x7fELF"

/-- The file of a tool. -/
def toolFile (name : Text) : Bytes := utf8 (toolMark ++ name)

/-- The tool whose file this is. -/
def toolIn? (data : Bytes) : Option Tool :=
  (dropPrefix? toolMark (ofBytes data)).bind fun name => tools.lookup (String.ofList name)

/-- The folder of the tools. -/
def toolFolder : Place := [text "usr", text "bin"]

/-- The disk of the host before anything is done: the folders that are usual, the tools and the devices. -/
def machine : Disk :=
  let folders := ["bin", "dev", "etc", "home", "lib", "opt", "root", "run", "sbin", "srv", "tmp", "usr", "var"]
  let d : Disk := ⟨folders.map fun f => ([f.toList], .folder)⟩
  let d : Disk := ⟨(["bin", "lib", "local", "sbin", "share"].map fun f => ([text "usr", f.toList], .folder)) ++ d.items⟩
  let d := d.put [text "bin"] (.link (text "usr/bin"))
  let d := d.put [text "dev", text "null"] (.device .null)
  let d := d.put [text "dev", text "full"] (.device .full)
  ⟨(tools.map fun (name, _) => (toolFolder ++ [name.toList], .file (toolFile name.toList) true)) ++ d.items⟩

/-! ## Files that can be run -/

/-- What a file is that is to be run. -/
inductive Image where
  | tool (t : Tool)
  /-- A script with the path of a program and perhaps an argument for it. -/
  | script (program : Text) (arg : Option Text)
  /-- Something else. -/
  | other

/-- The program that the first line of a script names, with its argument. -/
def shebang? (source : Text) : Option (Text × Option Text) := do
  let r ← dropPrefix? (text "#!") source
  let gap (c : Char) : Bool := c == ' ' || c == '\t'
  let line := ((r.takeWhile (· != '\n')).take 253).dropWhile gap
  let line := (line.reverse.dropWhile gap).reverse
  let program := line.takeWhile fun c => !gap c
  if program.isEmpty then none
  else
    let arg := (line.drop program.length).dropWhile gap
    return (program, if arg.isEmpty then none else some arg)

/-- What is to be run where a path leads. -/
def imageAt (d : Disk) (dir : Place) (path : Text) : Except LaunchFault Image :=
  match d.find dir (pathOf path) with
  | .error e                => .error (.notFound e)
  | .ok (_, .file data true) =>
    .ok (match toolIn? data with
      | some t => .tool t
      | none   =>
        match shebang? (ofBytes data) with
        | some (program, arg) => .script program arg
        | none                => .other)
  | .ok _                   => .error .denied

/-! ## Looking for programs -/

/-- The value of a variable. -/
def valueIn? (env : Environment) (name : String) : Option Text := env.lookup name.toList

/-- The folders in which programs are looked for. -/
def searchPath (env : Environment) : List Text := splitOn ':' ((valueIn? env "PATH").getD (text "/bin:/usr/bin"))

/-- The path of a program in a folder. -/
def pathIn (folder name : Text) : Text := if folder.isEmpty then name else folder ++ '/' :: name

/-- How deep scripts may name other scripts to interpret them. -/
def scriptDepth : Nat := 5

/-- A tool with its arguments, those before the path and the path of a script among them. -/
structure Start where
  tool : Tool
  name : Text
  args : List Text

/-- The tool that is to be started for a path; `depth` bounds the scripts on the way. -/
def startAt (d : Disk) (dir : Place) : Nat → Text → Text → List Text → Except LaunchFault Start
  | 0,         _,    _,    _    => .error (.notFound .looping)
  | depth + 1, path, name, args => do
    match ← imageAt d dir path with
    | .tool t             => return ⟨t, name, args⟩
    | .script program arg => startAt d dir depth program program (arg.toList ++ path :: args)
    | .other              => throw .notProgram

/-- The tool that is to be started for a name: folder by folder, until something is found. -/
def search (start : Text → Except LaunchFault Start) (name : Text) :
    Option LaunchFault → List Text → Except LaunchFault Start
  | found, []           => .error (found.getD (.notFound .missing))
  | found, folder :: fs =>
    match start (pathIn folder name) with
    | .ok s                       => .ok s
    | .error .denied              => search start name (some .denied) fs
    | .error (.notFound .missing)   => search start name found fs
    | .error (.notFound .notFolder) => search start name found fs
    | .error fault                => .error fault

/-! ## Runs -/

/-- Where a command starts. -/
def startOfCommand (d : Disk) (env : Environment) (c : Command) : Except LaunchFault Start :=
  let start (path : Text) : Except LaunchFault Start :=
    match startAt d c.dir scriptDepth path c.name c.args with
    | .error .notProgram =>
      if c.asScript then startAt d c.dir scriptDepth (text "/bin/sh") (text "/bin/sh") (path :: c.args)
      else .error .notProgram
    | found              => found
  if c.program.any (· == '\x00') || c.args.any fun a => a.any (· == '\x00') then .error .nullCharacter
  else if c.program.isEmpty then .error (.notFound .missing)
  else if '/' ∈ c.program then start c.program
  else search start c.program none (searchPath env)

/-- A host with tools and scripts. `fuel` bounds how deep programs start one another. -/
def toolboxSteps (host : Environment) : Nat → Launcher
  | 0        => fun d _ => .endless ⟨.signal 9, [], [], 0, d⟩
  | fuel + 1 => fun d c =>
    let env := c.env.getD host
    match startOfCommand d env c with
    | .error fault => .refused fault
    | .ok s        =>
      s.tool
        { name := s.name, launch := toolboxSteps host fuel, disk := d, dir := c.dir, input := c.input
          seekable := c.seekable, env := env, channels := c.channels, limit := c.limit } s.args

/-- How deep programs may start one another. -/
def nestingBound : Nat := 60

/-- A host with tools and scripts, in an environment. -/
def toolbox (host : Environment) : Launcher := toolboxSteps host nestingBound

end JavaMend.Host
