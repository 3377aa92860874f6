import Docmark.Fault
import Docmark.Html.Node
import Docmark.Token.Block

/-!
# Rendering

The HTML of a token tree.  A renderer holds one entry per kind of token; a kind without an entry
renders to nothing.  The standard entry is the form given here, and an entry of one's own is given
the token together with the HTML of what is inside it.
-/

namespace Docmark

/-! ## The standard forms -/

/-- The title attribute, if there is a title. -/
def titleAttribute (title : Option Text) : List Attribute :=
  (title.map (Attribute.of "title")).toList

/-- The HTML of an inline leaf. -/
def Inline.Leaf.toHtml : Inline.Leaf → List Html
  | .text t => [.text t]
  | .escape t => [.text t]
  | .raw t => [.text t]
  | .directive d => [.text d.raw]
  | .image src title alt =>
    [.void "img" ([.of "src" src, .of "alt" alt] ++ titleAttribute title)]
  | .codeSpan code => [.element "code" [] [.text code]]
  | .br => [.void "br" [], .lineFeed]
  | .tag markup => [.raw markup]
  | .autoLink href t => [.element "a" [.of "href" href] [.text t]]
  | .xref uid written =>
    let strict := if written.head? = some '<' then "True" else "False"
    [.element "xref" [.of "href" uid, .of "data-throw-if-not-resolved" strict.toList,
      .of "data-raw-source" written] []]

/-- The HTML of an inline frame around the HTML of its content. -/
def Inline.Frame.toHtml (inner : List Html) : Inline.Frame → List Html
  | .link href title => [.element "a" (.of "href" href :: titleAttribute title) inner]
  | .strong => [.element "strong" [] inner]
  | .em => [.element "em" [] inner]
  | .del => [.element "del" [] inner]
  | .included _ => inner

/-- The style attribute of a table cell. -/
def Alignment.attribute : Option Alignment → List Attribute
  | none => []
  | some .left => [.of "style" "text-align:left".toList]
  | some .center => [.of "style" "text-align:center".toList]
  | some .right => [.of "style" "text-align:right".toList]

/-- The HTML of one row of a table. -/
def rowHtml (tag : String) (align : List (Option Alignment)) (cells : List (List Html)) : Html :=
  .element "tr" [] (.lineFeed :: cells.zipIdx.flatMap fun (cell, i) =>
    [.element tag (Alignment.attribute (align[i]?.getD none)) cell, .lineFeed])

/-- The HTML of a table. -/
def tableHtml (align : List (Option Alignment)) (header : List (List Html))
    (rows : List (List (List Html))) : List Html :=
  let head := [.lineFeed, .element "thead" [] [.lineFeed, rowHtml "th" align header, .lineFeed],
    .lineFeed]
  let body := if rows.isEmpty then [] else
    [.element "tbody" [] (.lineFeed :: rows.flatMap fun r => [rowHtml "td" align r, .lineFeed]),
      .lineFeed]
  [.element "table" [] (head ++ body), .lineFeed]

/-- The HTML of source text shown as it stands. -/
def sourceHtml (t : Text) : List Html := [.text t, .lineFeed]

/-- The HTML of a heading. -/
def headingHtml (depth : Nat) (id : Option Text) (inner : List Html) : List Html :=
  [.element s!"h{depth}" (id.map (Attribute.of "id")).toList inner, .lineFeed]

/-- The HTML of a paragraph. -/
def paragraphHtml (inner : List Html) : List Html := [.element "p" [] inner, .lineFeed]

/-- The HTML of a block of code. -/
def codeHtml (lang : Option Text) (t : Text) : List Html :=
  let attributes := (lang.map fun l => Attribute.of "class" ("lang-".toList ++ l)).toList
  [.element "pre" [] [.element "code" attributes [.text t, .lineFeed]], .lineFeed]

/-- The HTML of a video. -/
def videoHtml (url : Text) : List Html :=
  [.element "div" [.of "class" "embeddedvideo".toList]
    [.element "iframe" [.of "src" url, .of "frameborder" "0".toList,
      .of "allowfullscreen" "true".toList] []], .lineFeed]

/-- The HTML of a block leaf, given the HTML of inline sequences. -/
def Block.Leaf.toHtml (inner : List Inline → Except Fault (List Html)) :
    Block.Leaf → Except Fault (List Html)
  | .heading depth id content => (inner content).map (headingHtml depth id)
  | .paragraph content => (inner content).map paragraphHtml
  | .text content => inner content
  | .table align header rows => do
    let header ← header.mapM inner
    let rows ← rows.mapM (·.mapM inner)
    return tableHtml align header rows
  | .code lang t => .ok (codeHtml lang t)
  | .hr => .ok [.void "hr" [], .lineFeed]
  | .html markup => .ok (.raw markup :: if markup.getLast? = some '\n' then [] else [.lineFeed])
  | .video url => .ok (videoHtml url)
  | .directive d => .ok (sourceHtml d.raw)
  | .raw t => .ok (sourceHtml t)
  | .newline => .ok []
  | .definition _ _ _ => .ok []
  | .pending _ => .ok []

/-- The HTML of the box of a task. -/
def taskHtml : Option Bool → List Html
  | none => []
  | some checked =>
    let state := if checked then [Attribute.of "checked" []] else []
    [.void "input" ([.of "type" "checkbox".toList, .of "disabled" []] ++ state), .text [' ']]

/-- Whether a quote starts with a callout, blank lines aside. -/
def startsWithCallout (children : List Block) : Bool :=
  match children.find? (·.kind != .newline) with
  | some b => b.kind == .note || b.kind == .division || b.kind == .video
  | none => false

/-- The number of the first item of a list, where it is not the usual one. -/
def startAttribute (ordered : Bool) : Option Nat → List Attribute
  | some n => if ordered && n != 1 then [Attribute.of "start" (toString n).toList] else []
  | none => []

/-- The HTML of a block frame around the HTML of its content.  `callout` tells whether the content
starts with a callout, which takes the place of the quote around it. -/
def Block.Frame.toHtml (callout : Bool) (inner : List Html) : Block.Frame → List Html
  | .document => inner
  | .included _ => inner
  | .blockquote =>
    if callout then inner else [.element "blockquote" [] (.lineFeed :: inner), .lineFeed]
  | .list ordered start _ =>
    [.element (if ordered then "ol" else "ul") (startAttribute ordered start)
      (.lineFeed :: inner), .lineFeed]
  | .listItem checked _ => [.element "li" [] (taskHtml checked ++ inner), .lineFeed]
  | .note kind =>
    [.element "div" [.of "class" kind]
      ([.lineFeed, .element "h5" [] [.text kind], .lineFeed] ++ inner), .lineFeed]
  | .division attributes =>
    [.element "div" (attributesIn attributes) (.lineFeed :: inner), .lineFeed]

/-! ## Renderers -/

/-- How one kind of inline token is rendered. -/
inductive InlineEntry where
  | standard
  /-- A form of one's own, given the token and the HTML of the tokens inside it. -/
  | custom (f : Inline → Except Fault (List Html) → Except Fault (List Html))

/-- How one kind of block token is rendered. -/
inductive BlockEntry where
  | standard
  /-- A form of one's own, given the token, the HTML of the blocks inside it and the HTML of its
  inline sequences. -/
  | custom (f : Block → Except Fault (List Html) → Except Fault (List Html) →
      Except Fault (List Html))

/-- The entries for all kinds of tokens. -/
structure Renderer where
  block : BlockTag → Option BlockEntry
  inline : InlineTag → Option InlineEntry

namespace Renderer

/-- The renderer with the standard form for every kind. -/
def standard : Renderer := ⟨fun _ => some .standard, fun _ => some .standard⟩

/-- The renderer without entries. -/
def empty : Renderer := ⟨fun _ => none, fun _ => none⟩

/-- The renderer with another entry for one kind of block. -/
def withBlock (r : Renderer) (kind : BlockTag) (e : BlockEntry) : Renderer :=
  { r with block := fun k => if k = kind then some e else r.block k }

/-- The renderer with another entry for one kind of inline. -/
def withInline (r : Renderer) (kind : InlineTag) (e : InlineEntry) : Renderer :=
  { r with inline := fun k => if k = kind then some e else r.inline k }

variable (r : Renderer)

mutual

/-- The HTML of an inline token. -/
def inlineHtml : Inline → Except Fault (List Html)
  | .leaf h content =>
    match r.inline content.kind with
    | none => .ok []
    | some .standard => .ok content.toHtml
    | some (.custom f) => f (.leaf h content) (.ok [])
  | .node h frame children =>
    match r.inline frame.kind with
    | none => .ok []
    | some .standard => (inlinesHtml children).map frame.toHtml
    | some (.custom f) => f (.node h frame children) (inlinesHtml children)

/-- The HTML of a sequence of inline tokens. -/
def inlinesHtml : List Inline → Except Fault (List Html)
  | [] => .ok []
  | t :: ts => do
    let x ← inlineHtml t
    let xs ← inlinesHtml ts
    return x ++ xs

end

/-- The HTML of a block leaf. -/
def leafHtml (h : Head) (content : Block.Leaf) : Except Fault (List Html) :=
  match r.block content.kind with
  | none => .ok []
  | some .standard => content.toHtml r.inlinesHtml
  | some (.custom f) =>
    f (.leaf h content) (.ok []) ((content.inlines.mapM r.inlinesHtml).map List.flatten)

mutual

/-- The HTML of a block. -/
def blockHtml : Block → Except Fault (List Html)
  | .leaf h content => r.leafHtml h content
  | .node h frame children =>
    match r.block frame.kind with
    | none => .ok []
    | some .standard =>
      match frame with
      | .listItem _ loose =>
        (itemHtml loose (1 < children.length) children).map (frame.toHtml false)
      | _ => (blocksHtml children).map (frame.toHtml (startsWithCallout children))
    | some (.custom f) => f (.node h frame children) (blocksHtml children) (.ok [])

/-- The HTML of a sequence of blocks. -/
def blocksHtml : List Block → Except Fault (List Html)
  | [] => .ok []
  | b :: bs => do
    let x ← blockHtml b
    let xs ← blocksHtml bs
    return x ++ xs

/-- The HTML of the blocks of a list item.  A paragraph of a loose list stands in a paragraph
element; in a tight list a line feed follows it if the item has `several` blocks. -/
def itemHtml (loose several : Bool) : List Block → Except Fault (List Html)
  | [] => .ok []
  | .leaf h (.text content) :: bs => do
    let x ← if loose then (r.inlinesHtml content).map paragraphHtml
      else (r.leafHtml h (.text content)).map (· ++ if several then [.lineFeed] else [])
    let xs ← itemHtml loose several bs
    return x ++ xs
  | b :: bs => do
    let x ← blockHtml b
    let xs ← itemHtml loose several bs
    return x ++ xs

end

/-- The written HTML of a block. -/
def render (b : Block) : Except Fault Text := (r.blockHtml b).map Html.writeAll

/-- The written HTML of a sequence of blocks. -/
def renderBlocks (bs : List Block) : Except Fault Text := (r.blocksHtml bs).map Html.writeAll

end Renderer

end Docmark
