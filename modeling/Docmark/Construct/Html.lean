import Docmark.Construct.Found
import Docmark.Text.Line
import Docmark.Text.Word
import Docmark.Text.Lowercase
import Docmark.Token.Block

/-!
# Raw HTML

HTML blocks start with a comment or with a tag of a block element and are taken as they stand: a
comment and the elements with raw content up to the line that closes them, every other block up to
the next blank line.
-/

namespace Docmark

/-- The elements that start an HTML block. -/
def blockElements : List String := [
  "address", "article", "aside", "blockquote", "body", "caption", "center", "col", "colgroup", "dd",
  "details", "dialog", "div", "dl", "dt", "fieldset", "figcaption", "figure", "footer", "form",
  "h1", "h2", "h3", "h4", "h5", "h6", "header", "hr", "iframe", "li", "main", "nav", "ol", "p",
  "pre", "script", "section", "style", "summary", "table", "tbody", "td", "tfoot", "th", "thead",
  "title", "tr", "ul", "video", "textarea"]

/-- The elements whose content is not markup. -/
def rawElements : List String := ["pre", "script", "style", "textarea"]

/-- A character of an element name behind its first letter. -/
def isNameChar (c : Char) : Bool := c.isAlphanum || c == '-'

/-- The element name at the start of a text. -/
def elementName (cs : Text) : Text :=
  match cs with
  | [] => []
  | c :: rest => if c.isAlpha then c :: rest.takeWhile isNameChar else []

/-- The number of characters up to the end of the line that holds the character at `n`. -/
def lineEndFrom (cs : Text) (n : Nat) : Nat :=
  let rest := cs.drop n
  n + (restOfLine rest).length + ((afterLine rest).take 1).length

/-- The number of characters up to the end of the line with the first `closing`, or of all. -/
def lengthThrough (closing : Text) (searched cs : Text) : Nat :=
  match indexOf? closing searched with
  | some n => lineEndFrom cs (n + closing.length)
  | none => cs.length

/-- The number of characters that an HTML block at the start of a text covers. -/
def htmlLength? (cs : Text) : Option Nat :=
  let body := cs.dropWhile (· = ' ')
  if 3 < cs.length - body.length then none
  else if "<!--".toList.isPrefixOf body then some (lengthThrough "-->".toList cs cs)
  else match body with
    | '<' :: rest =>
      let tag := lowerAscii (elementName (dropFront '/' rest))
      if blockElements.contains (String.ofList tag) then
        if rawElements.contains (String.ofList tag) then
          some (lengthThrough ("</".toList ++ tag ++ ">".toList) (lowerAscii cs) cs)
        else some ((lines cs).takeWhile (fun l => !isBlank l)).flatten.length
      else none
    | _ => none

/-- A block of raw HTML. -/
def htmlBlock? (cs : Text) : Option (Found Block.Leaf) :=
  (htmlLength? cs).map fun n => ⟨n, .html (cs.take n)⟩

/-! ## Inline tags -/

/-- Reads white space, at least one character. -/
def spaces1? (cs : Text) : Option Text :=
  match cs with
  | [] => none
  | c :: rest => if isSpace c then some (rest.dropWhile isSpace) else none

/-- A character of an attribute name behind its first. -/
def isAttributeChar (c : Char) : Bool := isWord c || c == ':' || c == '.' || c == '-'

/-- A character of an attribute value without quotes. -/
def isBareValueChar (c : Char) : Bool :=
  !(isSpace c || c == '"' || c == '\'' || c == '=' || c == '<' || c == '>' || c == '\x60')

/-- Reads an attribute value, in quotes or bare. -/
def attributeValue? (cs : Text) : Option Text :=
  match cs with
  | [] => none
  | c :: rest =>
    if c = '"' ∨ c = '\'' then
      match rest.dropWhile (· ≠ c) with
      | [] => none
      | _ :: after => some after
    else if isBareValueChar c then some (rest.dropWhile isBareValueChar)
    else none

/-- Reads the value part of an attribute, `= value` with white space around the sign, if it is
there. -/
def skipValue (cs : Text) : Text :=
  match cs.dropWhile isSpace with
  | '=' :: rest => (attributeValue? (rest.dropWhile isSpace)).getD cs
  | _ => cs

/-- Reads one attribute with the white space in front of it. -/
def skipAttribute? (cs : Text) : Option Text :=
  match spaces1? cs with
  | none => none
  | some [] => none
  | some (c :: rest) =>
    if c.isAlpha || c == '_' || c == ':' then some (skipValue (rest.dropWhile isAttributeChar))
    else none

/-- Reads all attributes; `fuel` bounds their number. -/
def skipAttributes : Nat → Text → Text
  | 0, cs => cs
  | fuel + 1, cs =>
    match skipAttribute? cs with
    | none => cs
    | some rest => skipAttributes fuel rest

/-- Reads the end of a tag. -/
def tagEnd? (cs : Text) : Option Text :=
  match cs.dropWhile isSpace with
  | '>' :: rest => some rest
  | '/' :: '>' :: rest => some rest
  | _ => none

/-- The number of characters of the comment or tag at the start of a text. -/
def tagLength? (cs : Text) : Option Nat :=
  let comment :=
    if "<!--".toList.isPrefixOf cs then (indexOf? "-->".toList (cs.drop 4)).map (· + 7) else none
  match comment with
  | some n => some n
  | none =>
    match cs with
    | '<' :: rest =>
      let body := dropFront '/' rest
      let name := elementName body
      if name.isEmpty then none
      else
        let after := body.drop name.length
        (tagEnd? (skipAttributes after.length after)).map fun left => cs.length - left.length
    | _ => none

end Docmark
