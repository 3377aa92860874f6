import Docmark.Text.Point

/-!
# Inline tokens

The tree of inline markup inside one block.  A token is either a leaf or a frame around further
tokens, and every token carries a head: the name of the rule that made it and the stretch of source
it was made from.
-/

namespace Docmark

/-- What every token carries: the rule that made it and the source it was made from. -/
structure Head where
  rule : String
  span : Span
deriving DecidableEq

/-- An include directive `[!include[title](path)]`, with its own source text. -/
structure Directive where
  title : Text
  path : Text
  raw : Text
deriving DecidableEq

/-- Inline tokens without inner tokens. -/
inductive Inline.Leaf where
  | text (text : Text)
  | escape (text : Text)
  | image (src : Text) (title : Option Text) (alt : Text)
  | codeSpan (code : Text)
  | br
  | tag (raw : Text)
  | autoLink (href text : Text)
  | xref (uid raw : Text)
  | directive (d : Directive)
  | raw (text : Text)
deriving DecidableEq

/-- Inline constructs around further tokens. -/
inductive Inline.Frame where
  | link (href : Text) (title : Option Text)
  | strong
  | em
  | del
  | included (path : Text)
deriving DecidableEq

/-- A piece of inline markup. -/
inductive Inline where
  | leaf (head : Head) (content : Inline.Leaf)
  | node (head : Head) (frame : Inline.Frame) (children : List Inline)

/-- The kinds of inline tokens. -/
inductive InlineTag where
  | text | escape | link | image | strong | em | del | codeSpan | br | tag | autoLink | xref
  | directive | included | raw
deriving DecidableEq

namespace Inline

instance : Inhabited Inline := ⟨.leaf ⟨"", ⟨{}, {}⟩⟩ .br⟩

/-- An inline token without its head. -/
inductive Body where
  | leaf (content : Leaf)
  | node (frame : Frame) (children : List Inline)

/-- The token with the given head and body. -/
def ofBody (head : Head) : Body → Inline
  | .leaf content => .leaf head content
  | .node frame children => .node head frame children

/-- The head of a token. -/
def head : Inline → Head
  | .leaf h _ => h
  | .node h _ _ => h

/-- The stretch of source that a token was made from. -/
def span (t : Inline) : Span := t.head.span

/-- The token with another head. -/
def withHead (h : Head) : Inline → Inline
  | .leaf _ content => .leaf h content
  | .node _ frame children => .node h frame children

/-- The tokens directly inside a token. -/
def children : Inline → List Inline
  | .leaf _ _ => []
  | .node _ _ children => children

/-- The token with other tokens directly inside; a leaf stays as it is. -/
def withChildren (children : List Inline) : Inline → Inline
  | .leaf h content => .leaf h content
  | .node h frame _ => .node h frame children

/-- The kind of a leaf. -/
def Leaf.kind : Leaf → InlineTag
  | .text _ => .text
  | .escape _ => .escape
  | .image _ _ _ => .image
  | .codeSpan _ => .codeSpan
  | .br => .br
  | .tag _ => .tag
  | .autoLink _ _ => .autoLink
  | .xref _ _ => .xref
  | .directive _ => .directive
  | .raw _ => .raw

/-- The kind of a frame. -/
def Frame.kind : Frame → InlineTag
  | .link _ _ => .link
  | .strong => .strong
  | .em => .em
  | .del => .del
  | .included _ => .included

/-- The kind of a token. -/
def kind : Inline → InlineTag
  | .leaf _ content => content.kind
  | .node _ frame _ => frame.kind

/-- The text that a reader sees in a leaf. -/
def Leaf.visible : Leaf → Text
  | .text t => t
  | .escape t => t
  | .raw t => t
  | .autoLink _ t => t
  | .codeSpan code => code
  | .image _ _ alt => alt
  | .xref uid _ => uid
  | .directive d => d.raw
  | .br => [' ']
  | .tag _ => []

end Inline

mutual

/-- The text that a reader sees in a token. -/
def Inline.visible : Inline → Text
  | .leaf _ content => content.visible
  | .node _ _ children => Inline.plainText children

/-- The text that a reader sees in a sequence of tokens. -/
def Inline.plainText : List Inline → Text
  | [] => []
  | t :: ts => t.visible ++ Inline.plainText ts

end

namespace InlineTag

/-- The name of a kind. -/
def name : InlineTag → String
  | text => "Text"
  | escape => "Escape"
  | link => "Link"
  | image => "Image"
  | strong => "Strong"
  | em => "Em"
  | del => "Del"
  | codeSpan => "CodeSpan"
  | br => "Br"
  | tag => "Tag"
  | autoLink => "AutoLink"
  | xref => "Xref"
  | directive => "Include"
  | included => "Included"
  | raw => "Raw"

/-- All kinds of inline tokens. -/
def all : List InlineTag :=
  [text, escape, link, image, strong, em, del, codeSpan, br, tag, autoLink, xref, directive,
    included, raw]

/-- The kind with the given name. -/
def ofName? (s : String) : Option InlineTag := all.find? (·.name == s)

end InlineTag

end Docmark
