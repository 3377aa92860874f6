import Docmark.Flavor
import Docmark.Html.Render
import Docmark.Include
import Docmark.Reader
import Docmark.Rewrite.HeadingId
import Docmark.Rewrite.TagRule

/-!
# The engine

The whole way of a document: it is read, rewritten, checked, and its directives are expanded, each
included file going the whole way itself; then it is rendered.  Expansion ends because every file
that is entered joins the chain of open files, and only finitely many can.
-/

namespace Docmark

/-- A document to be built. -/
structure Source where
  path : Option Path
  content : Text

/-- A built document. -/
structure Document where
  path : Option Path
  root : Block
  diagnostics : Diagnostics
  /-- What the passes noted down. -/
  remarks : List Text

/-- A rendered document. -/
structure Rendered where
  path : Option Path
  html : Text
  diagnostics : Diagnostics
deriving DecidableEq

/-- Everything that a build depends on besides the document. -/
structure Engine where
  rules : RuleSet := dfmRules
  /-- Whether headings get ids. -/
  headingIds : Bool := true
  /-- Passes made behind the standard ones. -/
  passes : List Pass := []
  validators : List Validator := []
  renderer : Renderer := .standard
  resolver : Resolver := MemoryFiles.resolver []
  /-- The path under which a file is known when it is the outermost one. -/
  canonicalPath : Path → Path := Path.normalize

namespace Engine

/-- The scope in which included files are read. -/
def includeScope : Scope := Scope.document.set Scope.isInclude (.flag true)

/-- All passes over the tree of a file: heading ids, further passes, and the validators if there are
any. -/
def allPasses (e : Engine) : List Pass :=
  (if e.headingIds then [headingIdRewriter.pass] else []) ++ e.passes ++
    (if e.validators.isEmpty then [] else [(Validator.group e.validators).pass])

/-- Reads the tree of a file and runs the passes over it. -/
def prepare (e : Engine) (scope : Scope) (file : Option Path) (text : Text) : BuildM Block := do
  let root ← (read e.rules scope text : Except Fault Block)
  runPasses e.allPasses file root

/-- The known files that are not being expanded. -/
def closedFiles (e : Engine) (chain : IncludeChain) : List Path :=
  e.resolver.known.filter fun p => !chain.holds p

theorem closedFiles_enter_lt {e : Engine} {chain : IncludeChain} {p : Path}
    (hknown : p ∈ e.resolver.known) (hclosed : chain.holds p = false) :
    (e.closedFiles (chain ++ [p])).length < (e.closedFiles chain).length := by
  have hsub : e.closedFiles (chain ++ [p]) =
      (e.closedFiles chain).filter fun q => !(p.same q) := by
    simp only [closedFiles, List.filter_filter, IncludeChain.holds, List.any_append, List.any_cons,
      List.any_nil, Bool.or_false, Bool.not_or, Bool.and_comm]
  rw [hsub]
  apply List.length_filter_lt_length_iff_exists.2
  refine ⟨p, ?_, ?_⟩
  · simp [closedFiles, hknown, hclosed]
  · simp [Path.same]

/-- Builds the tree of a file whose chain of open files is `chain`. -/
def process (e : Engine) (chain : IncludeChain) (scope : Scope) (file : Option Path) (text : Text) :
    BuildM Block := do
  let root ← e.prepare scope file text
  expandBlock
    (fun d span =>
      match _h : e.resolver.resolve d.path file with
      | none => do
        reportAt file span .includeNotFound
          ("cannot resolve include \x60".toList ++ d.path ++ ['\x60'])
        return none
      | some found =>
        if _hopen : chain.holds found.path then do
          reportAt file span .circularReference (chain.cycleMessage found.path)
          return none
        else do
          let root ← e.process (chain ++ [found.path]) includeScope (some found.path) found.content
          let root ← rebaseIncluded file found.path root
          return some (found.path, root))
    root
termination_by (e.closedFiles chain).length
decreasing_by
  exact closedFiles_enter_lt (e.resolver.resolve_known _ _ _ _h) (by simpa using _hopen)

/-- Builds a document. -/
def parse (e : Engine) (source : Source) : Except Fault Document :=
  let chain := (source.path.map e.canonicalPath).toList
  match e.process chain Scope.document source.path source.content {} with
  | (.ok root, journal) => .ok ⟨source.path, root, journal.diagnostics, journal.remarks⟩
  | (.error f, _) => .error f

/-- Reads a text without any pass over its tree. -/
def tokenize (e : Engine) (text : Text) : Except Fault Block := read e.rules Scope.document text

/-- Renders a built document. -/
def render (e : Engine) (d : Document) : Except Fault Text := e.renderer.render d.root

/-- Builds and renders a document. -/
def markup (e : Engine) (source : Source) : Except Fault Rendered := do
  let d ← e.parse source
  let html ← e.render d
  return ⟨d.path, html, d.diagnostics⟩

end Engine

end Docmark
