import Docmark.Html.Escape

/-!
# HTML trees

HTML is made as a tree and written at the end.  Only the writer produces markup characters, so text
and attribute values cannot open a tag or leave their quotes; `raw` is the one node that is written
as it stands.
-/

namespace Docmark

/-- An attribute; without a value only its name is written. -/
structure Attribute where
  name : Text
  value : Option Text
deriving DecidableEq

/-- An attribute with a value. -/
def Attribute.of (name : String) (value : Text) : Attribute := ⟨name.toList, some value⟩

/-- A piece of HTML. -/
inductive Html where
  | text (t : Text)
  /-- Markup from the document itself, written as it stands. -/
  | raw (t : Text)
  /-- An element with a closing tag. -/
  | element (name : String) (attributes : List Attribute) (children : List Html)
  /-- An element without content. -/
  | void (name : String) (attributes : List Attribute)

/-- A line feed between tags. -/
def Html.lineFeed : Html := .text ['\n']

/-- The written form of an attribute, with the blank in front of it. -/
def Attribute.write (a : Attribute) : Text :=
  ' ' :: a.name ++
    match a.value with
    | none => []
    | some v => "=\"".toList ++ escapeHtml v ++ ['"']

/-- The written form of an opening tag. -/
def writeTag (name : String) (attributes : List Attribute) : Text :=
  '<' :: name.toList ++ attributes.flatMap Attribute.write ++ ['>']

mutual

/-- The written form of a piece of HTML. -/
def Html.write : Html → Text
  | .text t => escapeHtml t
  | .raw t => t
  | .element name attributes children =>
    writeTag name attributes ++ Html.writeAll children ++ "</".toList ++ name.toList ++ ['>']
  | .void name attributes => writeTag name attributes

/-- The written form of pieces of HTML one after the other. -/
def Html.writeAll : List Html → Text
  | [] => []
  | x :: xs => x.write ++ Html.writeAll xs

end

/-! ## Attributes in free text -/

/-- A character that an attribute name starts with. -/
def startsAttribute (c : Char) : Bool := c.isAlpha || c == '_'

/-- A character of an attribute name. -/
def isAttributeNameChar (c : Char) : Bool :=
  c.isAlphanum || c == '-' || c == '_' || c == ':' || c == '.'

/-- A character of an attribute value without quotes. -/
def isBareAttributeChar (c : Char) : Bool :=
  !(isSpace c || c == '"' || c == '\'' || c == '<' || c == '>')

/-- The value behind an equals sign and what follows it.  A quote that is never closed takes the
rest. -/
def attributeText (cs : Text) : Text × Text :=
  match cs with
  | [] => ([], [])
  | c :: rest =>
    if c = '"' ∨ c = '\'' then
      let value := rest.takeWhile (· ≠ c)
      (value, rest.drop (value.length + 1))
    else
      let value := cs.takeWhile isBareAttributeChar
      (value, cs.drop value.length)

/-- What follows a value is no longer than the text that it was read from. -/
theorem attributeText_length (cs : Text) : (attributeText cs).2.length ≤ cs.length := by
  unfold attributeText
  split
  · simp
  · dsimp only
    split
    · simp only [List.length_drop, List.length_cons]
      omega
    · simp

/-- The attributes in a free text: names, names with a bare value and names with a quoted value.
Everything between them is passed over. -/
def attributesIn (cs : Text) : List Attribute :=
  let rest := cs.dropWhile fun c => !startsAttribute c
  if _h : rest = [] then []
  else
    let name := rest.take 1 ++ (rest.drop 1).takeWhile isAttributeNameChar
    match _hrest : rest.drop name.length with
    | '=' :: after =>
      ⟨name, some (attributeText after).1⟩ :: attributesIn (attributeText after).2
    | after => ⟨name, none⟩ :: attributesIn after
termination_by cs.length
decreasing_by
  all_goals
    have hle : rest.length ≤ cs.length := (List.dropWhile_sublist _).length_le
    have hpos : 0 < rest.length := List.length_pos_iff.2 _h
    have hname : 1 ≤ name.length := by simp [name]; omega
    have hlen := congrArg List.length _hrest
    simp only [List.length_drop, List.length_cons] at hlen
  · have := attributeText_length after
    omega
  · omega

end Docmark
