import Docmark.Json
import Docmark.Token.Block

/-!
# Token trees in JSON

Each token is an object with the name of its rule, its place, its kind, and the fields of that kind.
-/

namespace Docmark

/-- A point in JSON. -/
def Point.json (p : Point) : Json :=
  .record [("line", .number p.line), ("column", .number p.column), ("offset", .number p.offset)]

/-- A span in JSON. -/
def Span.json (s : Span) : Json := .record [("start", s.start.json), ("end", s.stop.json)]

/-- A token of a kind, given the fields of the kind. -/
def Head.json (h : Head) (kind : String) (fields : List (String × Json)) : Json :=
  .record ([("rule", .string h.rule.toList), ("position", h.span.json),
    ("type", .string kind.toList)] ++ fields)

/-- The fields of a directive. -/
def Directive.fields (d : Directive) : List (String × Json) :=
  [("title", .string d.title), ("path", .string d.path), ("raw", .string d.raw)]

namespace Inline

/-- The kind of a leaf and its fields. -/
def Leaf.fields : Leaf → String × List (String × Json)
  | .text s => ("text", [("text", .string s)])
  | .escape s => ("escape", [("text", .string s)])
  | .image src title alt =>
    ("image", [("src", .string src), ("title", .optional .string title), ("alt", .string alt)])
  | .codeSpan code => ("codeSpan", [("code", .string code)])
  | .br => ("br", [])
  | .tag s => ("tag", [("raw", .string s)])
  | .autoLink href s => ("autoLink", [("href", .string href), ("text", .string s)])
  | .xref uid s => ("xref", [("uid", .string uid), ("raw", .string s)])
  | .directive d => ("include", d.fields)
  | .raw s => ("raw", [("text", .string s)])

/-- The kind of a frame and its fields. -/
def Frame.fields : Frame → String × List (String × Json)
  | .link href title => ("link", [("href", .string href), ("title", .optional .string title)])
  | .strong => ("strong", [])
  | .em => ("em", [])
  | .del => ("del", [])
  | .included path => ("included", [("path", .string path)])

mutual

/-- An inline token in JSON. -/
def json : Inline → Json
  | .leaf h content => h.json content.fields.1 content.fields.2
  | .node h frame children =>
    h.json frame.fields.1 (frame.fields.2 ++ [("children", .array (jsonAll children))])

/-- Inline tokens in JSON. -/
def jsonAll : List Inline → List Json
  | [] => []
  | t :: ts => t.json :: jsonAll ts

end

end Inline

/-- The name of an alignment. -/
def Alignment.name : Alignment → String
  | left => "left"
  | center => "center"
  | right => "right"

/-- A scope in JSON. -/
def Scope.json (s : Scope) : Json :=
  .record [("mode", .string (match s.mode with
      | .block => "Block"
      | .inline => "Inline").toList),
    ("depth", .number s.depth), ("can_nest", .boolean s.canNest),
    ("variables", .object (s.settings.map fun (key, v) => (key.toList, match v with
      | .flag b => .boolean b
      | .label t => .string t.toList)))]

namespace Block

/-- A sequence of inline tokens in JSON. -/
def inlineJson (ts : List Inline) : Json := .array (Inline.jsonAll ts)

/-- The kind of a leaf and its fields. -/
def Leaf.fields : Leaf → String × List (String × Json)
  | .newline => ("newline", [])
  | .definition _ _ _ => ("ignore", [])
  | .heading depth id content =>
    ("heading", [("depth", .number depth), ("id", .optional .string id),
      ("content", inlineJson content)])
  | .paragraph content => ("paragraph", [("content", inlineJson content)])
  | .text content => ("text", [("content", inlineJson content)])
  | .code lang s => ("code", [("lang", .optional .string lang), ("text", .string s)])
  | .hr => ("hr", [])
  | .html s => ("html", [("raw", .string s)])
  | .table align header rows =>
    ("table", [
      ("align", .array (align.map (.optional fun a => .string a.name.toList))),
      ("header", .array (header.map inlineJson)),
      ("rows", .array (rows.map fun row => .array (row.map inlineJson)))])
  | .video url => ("video", [("url", .string url)])
  | .directive d => ("include", d.fields)
  | .raw s => ("raw", [("text", .string s)])
  | .pending p =>
    ("pending", [("source", .string p.source), ("origin", p.origin.json),
      ("context", p.scope.json)])

/-- The kind of a frame and its fields. -/
def Frame.fields : Frame → String × List (String × Json)
  | .document => ("document", [])
  | .blockquote => ("blockquote", [])
  | .list ordered start loose =>
    ("list", [("ordered", .boolean ordered), ("start", .optional .number start),
      ("loose", .boolean loose)])
  | .listItem checked loose =>
    ("listItem", [("checked", .optional .boolean checked), ("loose", .boolean loose)])
  | .note kind => ("note", [("kind", .string kind)])
  | .division attributes => ("section", [("attributes", .string attributes)])
  | .included path => ("included", [("path", .string path)])

/-- The name of the field with the inner blocks of a frame. -/
def Frame.childrenField : Frame → String
  | .list _ _ _ => "items"
  | _ => "children"

mutual

/-- A block in JSON. -/
def json : Block → Json
  | .leaf h content => h.json content.fields.1 content.fields.2
  | .node h frame children =>
    h.json frame.fields.1
      (frame.fields.2 ++ [(frame.childrenField, .array (jsonAll children))])

/-- Blocks in JSON. -/
def jsonAll : List Block → List Json
  | [] => []
  | b :: bs => b.json :: jsonAll bs

end

end Block

end Docmark
