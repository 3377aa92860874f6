import Docmark.Path
import Docmark.Text.Point

/-!
# Diagnostics

The problems of a document that do not stop its build: what is wrong, how grave it is, and where.
-/

namespace Docmark

/-- How grave a problem is. -/
inductive Severity where
  | warning
  | error
deriving DecidableEq

/-- The name of a severity. -/
def Severity.name : Severity → String
  | warning => "warning"
  | error => "error"

/-- The kinds of problems. -/
inductive DiagnosticKind where
  | includeNotFound
  | circularReference
  | disallowedTag
deriving DecidableEq

/-- The code that names a kind of problem. -/
def DiagnosticKind.code : DiagnosticKind → String
  | includeNotFound => "include-not-found"
  | circularReference => "circular-reference"
  | disallowedTag => "disallowed-tag"

/-- A problem of a document. -/
structure Diagnostic where
  kind : DiagnosticKind
  severity : Severity
  message : Text
  /-- The file with the problem; none for input without a path. -/
  file : Option Path
  line : Nat
  column : Nat
deriving DecidableEq

namespace Diagnostic

/-- A warning without a place. -/
def warning (kind : DiagnosticKind) (message : Text) : Diagnostic :=
  ⟨kind, .warning, message, none, 0, 0⟩

/-- The problem at a place. -/
def at_ (d : Diagnostic) (file : Option Path) (p : Point) : Diagnostic :=
  { d with file := file, line := p.line, column := p.column }

/-- One line that tells the place, the severity, the kind and the message. -/
def display (d : Diagnostic) : Text :=
  d.file.getD "<input>".toList ++
    s!":{d.line}:{d.column}: {d.severity.name}[{d.kind.code}]: ".toList ++ d.message

end Diagnostic

/-- The problems of a document, in the order in which they were found. -/
abbrev Diagnostics := List Diagnostic

namespace Diagnostics

/-- Whether some problem is an error. -/
def hasErrors (ds : Diagnostics) : Bool := ds.any (·.severity == .error)

/-- The number of problems of a kind. -/
def countOf (ds : Diagnostics) (kind : DiagnosticKind) : Nat := (ds.filter (·.kind == kind)).length

end Diagnostics

end Docmark
