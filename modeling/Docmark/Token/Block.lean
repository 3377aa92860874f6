import Docmark.Scope
import Docmark.Token.Inline

/-!
# Block tokens

The tree of blocks of a document.  As with inline tokens, a block is a leaf or a frame around
further blocks.  Leaves with inline content are read in two passes, since a link may be defined
further down: the first pass leaves a `Pending` in place of such a leaf, which holds everything that
the second pass needs.
-/

namespace Docmark

/-- How the cells of a table column are aligned. -/
inductive Alignment where
  | left
  | center
  | right
deriving DecidableEq

/-- What the second pass makes of a pending block. -/
inductive Pending.Form where
  | heading (depth : Nat)
  | paragraph
  | text
  | table (align : List (Option Alignment)) (header : List Text) (rows : List (List Text))
  /-- A block that its rule never completes. -/
  | unfinished
deriving DecidableEq

/-- A block whose inline content is still to be read. -/
structure Pending where
  form : Pending.Form
  /-- The text to be read; for a table, all of its lines. -/
  source : Text
  /-- The place of the text in the file. -/
  origin : Point
  /-- What surrounded the block. -/
  scope : Scope
deriving DecidableEq

/-- Blocks without inner blocks. -/
inductive Block.Leaf where
  | newline
  /-- A link definition `[label]: href "title"`. -/
  | definition (label href : Text) (title : Option Text)
  | heading (depth : Nat) (id : Option Text) (content : List Inline)
  | paragraph (content : List Inline)
  /-- A paragraph of a list item. -/
  | text (content : List Inline)
  | code (lang : Option Text) (text : Text)
  | hr
  | html (raw : Text)
  | table (align : List (Option Alignment)) (header : List (List Inline))
      (rows : List (List (List Inline)))
  | video (url : Text)
  | directive (d : Directive)
  /-- Source text shown as it stands. -/
  | raw (text : Text)
  | pending (p : Pending)

/-- Block constructs around further blocks. -/
inductive Block.Frame where
  | document
  | blockquote
  | list (ordered : Bool) (start : Option Nat) (loose : Bool)
  | listItem (checked : Option Bool) (loose : Bool)
  | note (kind : Text)
  | division (attributes : Text)
  | included (path : Text)
deriving DecidableEq

/-- A block of a document. -/
inductive Block where
  | leaf (head : Head) (content : Block.Leaf)
  | node (head : Head) (frame : Block.Frame) (children : List Block)

/-- The kinds of block tokens. -/
inductive BlockTag where
  | document | newline | definition | heading | paragraph | text | code | hr | blockquote | list
  | listItem | html | table | note | division | video | directive | included | raw | pending
deriving DecidableEq

namespace Block

instance : Inhabited Block := ⟨.leaf ⟨"", ⟨{}, {}⟩⟩ .newline⟩

/-- A block without its head. -/
inductive Body where
  | leaf (content : Leaf)
  | node (frame : Frame) (children : List Block)

/-- The block with the given head and body. -/
def ofBody (head : Head) : Body → Block
  | .leaf content => .leaf head content
  | .node frame children => .node head frame children

/-- The head of a block. -/
def head : Block → Head
  | .leaf h _ => h
  | .node h _ _ => h

/-- The stretch of source that a block was made from. -/
def span (b : Block) : Span := b.head.span

/-- The block with another head. -/
def withHead (h : Head) : Block → Block
  | .leaf _ content => .leaf h content
  | .node _ frame children => .node h frame children

/-- The blocks directly inside a block. -/
def children : Block → List Block
  | .leaf _ _ => []
  | .node _ _ children => children

/-- The block with other blocks directly inside; a leaf stays as it is. -/
def withChildren (children : List Block) : Block → Block
  | .leaf h content => .leaf h content
  | .node h frame _ => .node h frame children

/-- Whether a block may hold further blocks. -/
def isContainer : Block → Bool
  | .leaf _ _ => false
  | .node _ _ _ => true

/-- The inline sequences of a leaf: one for a heading or a paragraph, one per cell for a table, row
by row. -/
def Leaf.inlines : Leaf → List (List Inline)
  | .heading _ _ content => [content]
  | .paragraph content => [content]
  | .text content => [content]
  | .table _ header rows => header ++ rows.flatten
  | _ => []

/-- The inline sequences that belong to a block itself. -/
def inlines : Block → List (List Inline)
  | .leaf _ content => content.inlines
  | .node _ _ _ => []

/-- The leaf with each of its inline sequences replaced. -/
def Leaf.mapInlines (f : List Inline → List Inline) : Leaf → Leaf
  | .heading depth id content => .heading depth id (f content)
  | .paragraph content => .paragraph (f content)
  | .text content => .text (f content)
  | .table align header rows => .table align (header.map f) (rows.map (·.map f))
  | l => l

/-- The kind of a leaf. -/
def Leaf.kind : Leaf → BlockTag
  | .newline => .newline
  | .definition _ _ _ => .definition
  | .heading _ _ _ => .heading
  | .paragraph _ => .paragraph
  | .text _ => .text
  | .code _ _ => .code
  | .hr => .hr
  | .html _ => .html
  | .table _ _ _ => .table
  | .video _ => .video
  | .directive _ => .directive
  | .raw _ => .raw
  | .pending _ => .pending

/-- The kind of a frame. -/
def Frame.kind : Frame → BlockTag
  | .document => .document
  | .blockquote => .blockquote
  | .list _ _ _ => .list
  | .listItem _ _ => .listItem
  | .note _ => .note
  | .division _ => .division
  | .included _ => .included

/-- The kind of a block. -/
def kind : Block → BlockTag
  | .leaf _ content => content.kind
  | .node _ frame _ => frame.kind

end Block

namespace BlockTag

/-- The name of a kind. -/
def name : BlockTag → String
  | document => "Document"
  | newline => "Newline"
  | definition => "Ignore"
  | heading => "Heading"
  | paragraph => "Paragraph"
  | text => "Text"
  | code => "Code"
  | hr => "Hr"
  | blockquote => "Blockquote"
  | list => "List"
  | listItem => "ListItem"
  | html => "Html"
  | table => "Table"
  | note => "Note"
  | division => "Section"
  | video => "Video"
  | directive => "Include"
  | included => "Included"
  | raw => "Raw"
  | pending => "Pending"

/-- All kinds of block tokens. -/
def all : List BlockTag := [document, newline, definition, heading, paragraph, text, code, hr,
  blockquote, list, listItem, html, table, note, division, video, directive, included, raw, pending]

/-- The kind with the given name. -/
def ofName? (s : String) : Option BlockTag := all.find? (·.name == s)

end BlockTag

end Docmark
