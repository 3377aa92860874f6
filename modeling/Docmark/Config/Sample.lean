import Docmark.Text.Blank

/-!
# A first configuration

The file that a new project starts with: every section with its default, and what else may be set in
comments.
-/

namespace Docmark.Config

/-- The lines of the configuration of a new project. -/
def sampleLines : List String := [
  "# Markdown dialect: \"markdown\", \"gfm\" or \"dfm\".",
  "flavor = \"dfm\"",
  "",
  "[headings]",
  "# Give every heading an id attribute.",
  "ids = true",
  "",
  "[include]",
  "# Directory for resolving includes in input without a file path.",
  "# base_dir = \"docs\"",
  "",
  "[files]",
  "# Glob patterns for the markdown files to build. Empty means all of them.",
  "patterns = []",
  "",
  "[exclude]",
  "# Gitignore-style patterns for markdown files to skip.",
  "patterns = []",
  "",
  "[output]",
  "extension = \"html\"",
  "",
  "# [[tags]]",
  "# tags = [\"script\", \"iframe\"]",
  "# behavior = \"warning\"",
  "# message = \"<\x7btag\x7d> is not allowed in documentation\"",
  "# open_only = true"]

/-- The configuration of a new project. -/
def sample : Text := (sampleLines.flatMap fun l => l.toList ++ ['\n'])

end Docmark.Config
