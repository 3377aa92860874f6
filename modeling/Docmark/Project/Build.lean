import Docmark.Engine
import Docmark.Project.Scan

/-!
# Building a project

A project is a directory with its settings and the documents found in it.  Each document is built by
itself, a failure of one being no failure of another, and the outputs are written next to their
sources.
-/

namespace Docmark

namespace FileTree

/-- The document in a file. -/
def source (t : FileTree) (p : Path) : Except Fault Source :=
  match t.readText p with
  | .ok text => return ⟨some p, normalizeLineEndings text⟩
  | .error f => throw (.file f)

/-- The engine with nothing but the files of a tree. -/
def engine (t : FileTree) (baseDir : Option Path) : Engine where
  resolver := t.resolver baseDir
  canonicalPath p := (t.canonical? p).getD p.normalize

end FileTree

/-- The engine that the settings of the project in a directory ask for. -/
def Config.engine (c : Config) (t : FileTree) (root : Path) : Engine :=
  { t.engine (some (match c.includeDir with
      | none => root
      | some dir => root.join dir)) with
    rules := c.flavor.rules
    headingIds := c.headingIds
    validators := if c.tagRules.isEmpty then [] else [TagRule.validator c.tagRules] }

/-- What became of a document. -/
structure Outcome where
  path : Path
  result : Except Fault Rendered

/-- What became of the documents of a project, in order. -/
abbrev Report := List Outcome

namespace Report

/-- The documents that could not be built. -/
def failures (r : Report) : List (Path × Fault) :=
  r.filterMap fun o =>
    match o.result with
    | .error f => some (o.path, f)
    | .ok _ => none

/-- The documents that were built. -/
def rendered (r : Report) : List Rendered := r.filterMap (·.result.toOption)

/-- Whether a document could not be built or has an error. -/
def hasErrors (r : Report) : Bool :=
  !r.failures.isEmpty || r.rendered.any (·.diagnostics.hasErrors)

/-- All problems of the documents that were built. -/
def diagnostics (r : Report) : Diagnostics := r.rendered.flatMap (·.diagnostics)

end Report

namespace Engine

/-- Builds the document in a file, unless the build is cancelled. -/
def build (e : Engine) (t : FileTree) (cancelled : Bool) (p : Path) : Except Fault Rendered := do
  if cancelled then throw (.cancelled p)
  e.markup (← t.source p)

/-- Builds the documents in some files. -/
def buildAll (e : Engine) (t : FileTree) (cancelled : Bool) (files : List Path) : Report :=
  files.map fun p => ⟨p, e.build t cancelled p⟩

end Engine

/-- A directory of documents. -/
structure Project where
  root : Path
  config : Config
  /-- The documents to build. -/
  files : List Path

namespace Project

/-- The project in a directory. -/
def open_ (t : FileTree) (root : Path) : Except Fault Project := do
  let config ← Config.load t root
  let scan ← Scan.ofConfig t root config
  return ⟨root, config, ← scan.documents t⟩

variable (p : Project)

/-- The engine that the settings ask for. -/
def engine (t : FileTree) : Engine := p.config.engine t p.root

/-- Builds all documents. -/
def build (t : FileTree) (cancelled : Bool) : Report :=
  (p.engine t).buildAll t cancelled p.files

/-- Where the output for a file is written. -/
def outputPath (file : Path) : Path := file.withExtension p.config.outputExtension

/-- Steps that change a file tree and may fail; what was changed before a failure stays. -/
abbrev WriteM := ExceptT Fault (StateM FileTree)

/-- Writes a text to a file. -/
def write (file : Path) (content : Text) : WriteM Unit := do
  match (← get).writeText file content with
  | .ok t => set t
  | .error f => throw (.file f)

/-- Writes the outputs of the documents that were built, and counts them. -/
def writeOutputs (r : Report) : WriteM Nat := do
  p.config.validate
  let built := r.filter (·.result.isOk)
  for o in built do
    match o.result with
    | .ok doc => write (p.outputPath o.path) doc.html
    | .error _ => pure ()
  return built.length

end Project

end Docmark
