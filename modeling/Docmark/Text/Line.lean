import Docmark.Text.Blank

/-!
# Lines and indentation

A text is the concatenation of its lines, each with the line feed that ends it.  Indentation is
measured in columns: a tab fills up to the next multiple of four.
-/

namespace Docmark

/-- The lines of a text, each with its line feed.  An empty text has no line. -/
def lines : Text → List Text
  | [] => []
  | c :: cs =>
    if c = '\n' then [c] :: lines cs
    else match lines cs with
      | [] => [[c]]
      | l :: ls => (c :: l) :: ls

/-- The lines of a text are the text. -/
theorem lines_flatten (cs : Text) : (lines cs).flatten = cs := by
  induction cs with
  | nil => rfl
  | cons c cs ih =>
    simp only [lines]
    split
    · simp [ih]
    · split <;> rename_i h <;> rw [h] at ih <;> simp_all

/-- The pieces of a text between separators; there is one more piece than there are separators. -/
def splitOn (sep : Char) : Text → List Text
  | [] => [[]]
  | c :: cs =>
    if c = sep then [] :: splitOn sep cs
    else match splitOn sep cs with
      | [] => [[c]]
      | w :: ws => (c :: w) :: ws

/-- The part of a text before its first line feed. -/
def restOfLine (cs : Text) : Text := cs.takeWhile (· ≠ '\n')

/-- The part of a text from its first line feed on. -/
def afterLine (cs : Text) : Text := cs.dropWhile (· ≠ '\n')

/-- The number of line feeds at the start of a text. -/
def leadingNewlines (cs : Text) : Nat := (cs.takeWhile (· = '\n')).length

/-- The column reached from column `w` by the blanks and tabs at the start of a text. -/
def indentFrom (w : Nat) : Text → Nat
  | [] => w
  | c :: cs =>
    if c = ' ' then indentFrom (w + 1) cs
    else if c = '\t' then indentFrom (w + (4 - w % 4)) cs
    else w

/-- The columns of white space at the start of a line. -/
def indentation (line : Text) : Nat := indentFrom 0 line

/-- Removes blanks and tabs until `width` columns are gone; `removed` are gone already. -/
def stripIndentFrom (width removed : Nat) : Text → Text
  | [] => []
  | c :: cs =>
    if width ≤ removed then c :: cs
    else if c = ' ' then stripIndentFrom width (removed + 1) cs
    else if c = '\t' then stripIndentFrom width (removed + (4 - removed % 4)) cs
    else c :: cs

/-- The line without its first `width` columns of white space, or as many as it has. -/
def stripIndent (width : Nat) (line : Text) : Text := stripIndentFrom width 0 line

/-- The text with every line break, in any of its three spellings, written as a line feed. -/
def normalizeLineEndings : Text → Text
  | [] => []
  | '\r' :: '\n' :: cs => '\n' :: normalizeLineEndings cs
  | c :: cs => (if c = '\r' then '\n' else c) :: normalizeLineEndings cs

end Docmark
