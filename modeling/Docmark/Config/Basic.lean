import Docmark.Fault
import Docmark.Flavor
import Docmark.Path
import Docmark.Rewrite.TagRule

/-!
# Project settings

The settings of a project with their defaults, and the check that keeps a build from replacing its
own sources: outputs are written next to their sources, so their extension must not be one of
Markdown.
-/

namespace Docmark

/-- The settings of a project. -/
structure Config where
  flavor : Flavor := .dfm
  /-- Whether headings get ids. -/
  headingIds : Bool := true
  /-- The directory, as seen from the root of the project, in which directives without a file find
  theirs. -/
  includeDir : Option Path := none
  /-- Patterns of the files to build; none means all. -/
  filePatterns : List Text := []
  /-- Patterns of the files and directories to leave out. -/
  excludePatterns : List Text := []
  tagRules : List TagRule := []
  /-- The extension of output files. -/
  outputExtension : Text := "html".toList
  /-- Files of more bytes are left out. -/
  maxFileSize : Nat := 10485760
  /-- Whether the ignore file at the root is left unread. -/
  disableGitignore : Bool := false
deriving DecidableEq

/-- The extensions of Markdown files. -/
def markdownExtensions : List Text := ["md".toList, "markdown".toList]

/-- Whether a path has an extension of Markdown. -/
def Path.isMarkdown (p : Path) : Bool :=
  match p.extension? with
  | some ext => markdownExtensions.contains ext
  | none => false

namespace Config

/-- Whether outputs with an extension could replace sources.  Dots at its start do not count, nor
does case. -/
def replacesSources (extension : Text) : Bool :=
  let ext := extension.dropWhile (· = '.')
  ext.isEmpty || markdownExtensions.contains (lowerAscii ext)

/-- Refuses settings under which a build would replace its sources. -/
def validate (c : Config) : Except Fault Unit :=
  if replacesSources c.outputExtension then throw (.invalidOutputExtension c.outputExtension)
  else return ()

end Config

end Docmark
