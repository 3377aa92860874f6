import Docmark.Text.Point

/-!
# Faults

Everything that can go wrong, by cause, and the one function that puts each cause into words.
-/

namespace Docmark

/-- Why a file could not be read or written. -/
inductive FileFault where
  | notFound
  | notADirectory
  | isADirectory
  | tooManyLinks
  | notUnicode
deriving DecidableEq

/-- The wording of a file fault. -/
def FileFault.message : FileFault → String
  | notFound => "No such file or directory (os error 2)"
  | notADirectory => "Not a directory (os error 20)"
  | isADirectory => "Is a directory (os error 21)"
  | tooManyLinks => "Too many levels of symbolic links (os error 40)"
  | notUnicode => "stream did not contain valid UTF-8"

/-- Why a configuration was refused. -/
inductive ConfigFault where
  /-- The text is no well-formed configuration. -/
  | malformed (reason : String)
  /-- A pattern that selects files cannot be read. -/
  | filePattern (pattern : Text)
  /-- A pattern that excludes files cannot be read. -/
  | excludePattern (pattern : Text)
deriving DecidableEq

/-- The wording of a configuration fault. -/
def ConfigFault.message : ConfigFault → String
  | malformed reason => reason
  | filePattern p => s!"invalid file pattern `{String.ofList p}`"
  | excludePattern p => s!"invalid exclude pattern `{String.ofList p}`"

/-- Everything that can go wrong. -/
inductive Fault where
  | file (cause : FileFault)
  /-- No rule accepted the input that was left. -/
  | noRuleMatched (snippet : Text) (point : Point)
  /-- A rule yielded a token without reading anything. -/
  | stalledRule (rule : String) (point : Point)
  /-- A rewriter removed the root of a document. -/
  | rootRemoved
  /-- A pending block was still pending after the second pass. -/
  | unresolvedPending (rule : String)
  /-- A rule pattern cannot be read. -/
  | invalidPattern (rule reason : String)
  | unknownRule (name : String)
  | unknownFlavor (name : String)
  | config (cause : ConfigFault)
  /-- Output files would replace Markdown sources. -/
  | invalidOutputExtension (extension : Text)
  /-- The directory at this path lies inside itself. -/
  | symlinkCycle (path : Text)
  | renderFailed
  /-- The build was cancelled before it reached this file. -/
  | cancelled (path : Text)
deriving DecidableEq

/-- The wording of a fault. -/
def Fault.message : Fault → String
  | file cause => cause.message
  | noRuleMatched snippet p =>
    s!"no rule matched the remaining input at {p.line}:{p.column}: `{String.ofList snippet}`"
  | stalledRule rule p =>
    s!"rule `{rule}` matched without consuming input at {p.line}:{p.column}"
  | rootRemoved => "rewriter removed the document root"
  | unresolvedPending rule => s!"pending token from rule `{rule}` was not resolved"
  | invalidPattern rule reason => s!"invalid pattern for rule `{rule}`: {reason}"
  | unknownRule name => s!"unknown rule `{name}` in rule set"
  | unknownFlavor name => s!"unknown flavor `{name}`"
  | config cause => s!"failed to parse config file: {cause.message}"
  | invalidOutputExtension ext =>
    s!"output extension `{String.ofList ext}` would overwrite markdown sources"
  | symlinkCycle path => s!"symlink cycle detected at `{String.ofList path}`"
  | renderFailed => "failed to write HTML"
  | cancelled path => s!"build cancelled before `{String.ofList path}` was processed"

end Docmark
