import Docmark.Text.Blank

/-!
# Escaping

The five characters with a meaning in HTML and the entities that stand for them.
-/

namespace Docmark

/-- The form of a character in HTML text and in attribute values. -/
def escapeChar (c : Char) : Text :=
  if c = '&' then "&amp;".toList
  else if c = '<' then "&lt;".toList
  else if c = '>' then "&gt;".toList
  else if c = '"' then "&quot;".toList
  else if c = '\'' then "&#39;".toList
  else [c]

/-- The form of a text in HTML text and in attribute values. -/
def escapeHtml (cs : Text) : Text := cs.flatMap escapeChar

end Docmark
