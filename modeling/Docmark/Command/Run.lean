import Docmark.Command.Arguments
import Docmark.Config.Sample
import Docmark.Json
import Docmark.Project.Build
import Docmark.Token.Json

/-!
# Running a command

What each command prints and writes.  A command runs on a terminal and a file tree; it passes or
not, and a fault stops it, but keeps what has been printed and written before.
-/

namespace Docmark.Command

/-- What a command has printed, and the files that it sees and writes. -/
structure Terminal where
  /-- The standard output. -/
  out : Text := []
  /-- The output for messages. -/
  err : Text := []
  files : FileTree

/-- Steps of a command. -/
abbrev CommandM := ExceptT Fault (StateM Terminal)

/-- Prints a line to the standard output. -/
def say (line : Text) : CommandM Unit := modify fun s => { s with out := s.out ++ line ++ ['\n'] }

/-- Prints a line to the output for messages. -/
def note (line : Text) : CommandM Unit := modify fun s => { s with err := s.err ++ line ++ ['\n'] }

/-- Runs steps that change files. -/
def writing {α : Type} (m : Project.WriteM α) : CommandM α := do
  let s ← get
  let (r, files) := m.run.run s.files
  set { s with files }
  (r : Except Fault α)

/-- The files as they are now. -/
def currentFiles : CommandM FileTree := return (← get).files

/-! ## Wording -/

/-- Colors of the terminal. -/
inductive Color where
  | red
  | green
  | yellow

/-- A text in a color, or as it is. -/
def paint (colored : Bool) (c : Color) (s : Text) : Text :=
  if colored then
    let code := match c with
      | .red => "31"
      | .green => "32"
      | .yellow => "33"
    s!"\x1b[{code}m".toList ++ s ++ "\x1b[39m".toList
  else s

/-- A path as seen from the root of the project. -/
def shortPath (root p : Path) : Path := (p.below? root).getD p

/-- The line about a problem. -/
def diagnosticLine (colored : Bool) (root : Path) (d : Diagnostic) : Text :=
  let file := (d.file.map (shortPath root)).getD "<input>".toList
  let color := match d.severity with
    | .warning => .yellow
    | .error => .red
  file ++ s!":{d.line}:{d.column}: ".toList ++ paint colored color d.severity.name.toList ++
    s!"[{d.kind.code}]: ".toList ++ d.message

/-- The line about a document that could not be built. -/
def failureLine (colored : Bool) (root : Path) (p : Path) (f : Fault) : Text :=
  paint colored .red "error:".toList ++ ' ' :: shortPath root p ++ ": ".toList ++ f.message.toList

/-- The counts of a build. -/
def summary (p : Project) (r : Report) : Text :=
  let documents := p.files.length
  let diagnostics := r.diagnostics.length
  let failures := r.failures.length
  s!"{documents} document(s), {diagnostics} diagnostic(s), {failures} failure(s).".toList

/-- The results of a check in JSON. -/
def checkJson (root : Path) (passed : Bool) (p : Project) (r : Report) : Json :=
  .record [
    ("diagnostics", .array (r.diagnostics.map fun d => .record [
      ("code", .string d.kind.code.toList),
      ("column", .number d.column),
      ("file", .optional (fun f => .string (shortPath root f)) d.file),
      ("line", .number d.line),
      ("message", .string d.message),
      ("severity", .string d.severity.name.toList)])),
    ("documents", .number p.files.length),
    ("failures", .array (r.failures.map fun (path, f) => .record [
      ("file", .string (shortPath root path)),
      ("message", .string f.message.toList)])),
    ("ok", .boolean passed)]

/-- The annotation of a problem. -/
def problemRemark (root : Path) (d : Diagnostic) : Text :=
  let file := (d.file.map (shortPath root)).getD []
  s!"::{d.severity.name} file=".toList ++ file ++
    s!",line={d.line},col={d.column}::[{d.kind.code}] ".toList ++ d.message

/-- The annotation of a document that could not be built. -/
def failureRemark (root : Path) (p : Path) (f : Fault) : Text :=
  "::error file=".toList ++ shortPath root p ++ "::".toList ++ f.message.toList

/-! ## Commands -/

section

variable (colored : Bool) (root : Path)

/-- Writes a first configuration, unless there is one. -/
def runInit : CommandM Bool := do
  match Config.find? (← currentFiles) root with
  | some found =>
    say ("Config file already exists: ".toList ++ found)
    return true
  | none =>
    writing (Project.write (root.join "dfm.toml".toList) Config.sample)
    for line in ["Created dfm.toml", "", "Next steps:",
        "  1. Pick a flavor and any HTML tag rules in dfm.toml",
        "  2. Run \x60dfm check\x60 to report broken includes",
        "  3. Run \x60dfm build\x60 to write the HTML"] do
      say line.toList
    return true

/-- The engine of the project, perhaps with another dialect. -/
def loadEngine (flavor : Option Flavor) : CommandM Engine := do
  let t ← currentFiles
  let config ← (Config.load t root : Except Fault Config)
  return { config with flavor := flavor.getD config.flavor }.engine t root

/-- Renders a file. -/
def runRender (file : Path) (out : Option Path) (flavor : Option Flavor) : CommandM Bool := do
  let engine ← loadEngine root flavor
  let source ← ((← currentFiles).source file : Except Fault Source)
  let doc ← (engine.markup source : Except Fault Rendered)
  for d in doc.diagnostics do
    note (diagnosticLine colored root d)
  match out with
  | some out =>
    writing (Project.write out doc.html)
    note ("Wrote ".toList ++ out)
  | none => modify fun s => { s with out := s.out ++ doc.html }
  return !doc.diagnostics.hasErrors

/-- Shows the token tree of a file. -/
def runTokens (file : Path) (flavor : Option Flavor) : CommandM Bool := do
  let engine ← loadEngine root flavor
  let source ← ((← currentFiles).source file : Except Fault Source)
  let doc ← (engine.parse source : Except Fault Document)
  say (doc.root.json.pretty 0)
  return true

/-- Builds the project. -/
def buildProject : CommandM (Project × Report) := do
  let t ← currentFiles
  let p ← (Project.open_ t root : Except Fault Project)
  return (p, p.build t false)

/-- Builds the project and reports its problems. -/
def runCheck (format : CheckFormat) (strict : Bool) : CommandM Bool := do
  let (p, r) ← buildProject root
  let passed := !r.hasErrors && !(strict && !r.diagnostics.isEmpty)
  match format with
  | .json => say (checkJson root passed p r).compact
  | .github =>
    for (path, f) in r.failures do
      say (failureRemark root path f)
    for d in r.diagnostics do
      say (problemRemark root d)
    note (summary p r)
  | .text =>
    for (path, f) in r.failures do
      note (failureLine colored root path f)
    for d in r.diagnostics do
      note (diagnosticLine colored root d)
    if passed then say (paint colored .green "Check passed:".toList ++ ' ' :: summary p r)
    else note (paint colored .red "Check failed:".toList ++ ' ' :: summary p r)
  return passed

/-- Builds the project and writes its outputs. -/
def runBuild : CommandM Bool := do
  let (p, r) ← buildProject root
  for (path, f) in r.failures do
    note (failureLine colored root path f)
  for d in r.diagnostics do
    note (diagnosticLine colored root d)
  let written ← writing (p.writeOutputs r)
  let documents := p.files.length
  say s!"Built {written} of {documents} document(s).".toList
  return !r.hasErrors

end

/-- How the command line is used. -/
def usage : List String := [
  "Render DocFX flavored markdown to HTML.",
  "",
  "Usage: dfm [OPTIONS] [COMMAND]",
  "",
  "Commands:",
  "  init    Create a \x60dfm.toml\x60 with the default settings",
  "  render  Render one markdown file to HTML",
  "  tokens  Print the token tree of a markdown file as JSON",
  "  check   Build every markdown file of the project and report diagnostics",
  "  build   Render every markdown file of the project next to its source",
  "",
  "Options:",
  "  -p, --path <PATH>  Path to the project root directory",
  "  -v, --verbose      Log what the engine is doing to stderr",
  "      --no-color     Disable colored output",
  "  -h, --help         Print help"]

/-- Runs what a command line asks for, and tells whether it passed. -/
def runAction (colored : Bool) (root : Path) : Action → CommandM Bool
  | .init => runInit root
  | .render file out flavor => runRender colored root file out flavor
  | .tokens file flavor => runTokens root file flavor
  | .check format strict => runCheck colored root format strict
  | .build => runBuild colored root
  | .help => do
    for line in usage do
      say line.toList
    return true

/-- How a run ended: with what exit code, output and files. -/
structure Ending where
  code : Nat
  terminal : Terminal

/-- Runs a command line.  The exit code tells whether the command passed (0) or not (1), and whether
it could not be done at all (2). -/
def run (args : List Text) (colorAllowed : Bool) (files : FileTree) : Ending :=
  match Invocation.parse args with
  | .error m => ⟨2, { err := ("error: " ++ m.message ++ "\n").toList, files }⟩
  | .ok invocation =>
    let colored := colorAllowed && !invocation.noColor
    let root := invocation.root.getD (FileTree.pathOf files.workingDir)
    match invocation.action with
    | none =>
      ⟨1, { err := "No subcommand specified. Run \x60dfm --help\x60 for usage.\n".toList, files }⟩
    | some action =>
      match (runAction colored root action).run.run { files } with
      | (.ok passed, terminal) => ⟨if passed then 0 else 1, terminal⟩
      | (.error f, terminal) =>
        ⟨2, { terminal with
          err := terminal.err ++ paint colored .red "error:".toList ++
            ' ' :: f.message.toList ++ ['\n'] }⟩

end Docmark.Command
