import Docmark.Construct.Container
import Docmark.Construct.Directive
import Docmark.Construct.Html
import Docmark.Construct.InlineFrame
import Docmark.Construct.InlineLeaf
import Docmark.Construct.Table

/-!
# Rules

A rule tries to recognise one construct at a cursor.  The constructs of the language are listed
here, each with the name that addresses it; besides them a rule set may hold rules of its own, given
by a function.  Rules are tried in order and the first that yields a token wins.
-/

namespace Docmark

/-- What one try of a rule comes to: a token if it recognised its construct, and the number of
characters by which it moved its cursor either way. -/
structure Attempt (α : Type) where
  token : Option α
  moved : Nat

/-! ## Block rules -/

/-- The block constructs of the language. -/
inductive BlockConstruct where
  | newline
  | indentedCode
  | fences
  /-- A heading marked by hashes, under a name of its own and, where given, of one level only. -/
  | heading (name : String) (style : HeadingStyle) (level : Option Nat)
  | underlinedHeading
  | thematicBreak
  | blockquote
  | list
  | html
  | definition
  | table
  | paragraph
  | text
  | directive
  | note
  | division
  | video
deriving DecidableEq

namespace BlockConstruct

/-- The name that addresses a construct in a rule set. -/
def name : BlockConstruct → String
  | newline => "newline"
  | indentedCode => "code"
  | fences => "fences"
  | heading name _ _ => name
  | underlinedHeading => "lheading"
  | thematicBreak => "hr"
  | blockquote => "blockquote"
  | list => listName
  | html => "html"
  | definition => "def"
  | table => "table"
  | paragraph => "paragraph"
  | text => "text"
  | directive => "include_block"
  | note => "note"
  | division => "section"
  | video => "video"

/-- Tries to recognise a construct.  Containers need a reader for their content, which is there as
long as one more construct may be opened. -/
def recognize (nest : Option BlockReader) (scope : Scope) (cur : Cursor) :
    BlockConstruct → Except Fault (Option (Found Block.Body))
  | newline => .ok ((blankLines? cur.rest).map (·.map .leaf))
  | indentedCode => .ok ((indentedCode? cur.rest).map (·.map .leaf))
  | fences => .ok ((fencedCode? cur.rest).map (·.map .leaf))
  | heading _ style level => .ok ((heading? style level scope cur).map (·.map .leaf))
  | underlinedHeading => .ok ((underlinedHeading? scope cur).map (·.map .leaf))
  | thematicBreak => .ok ((thematicBreak? cur.rest).map (·.map .leaf))
  | blockquote =>
    match nest with
    | none => .ok none
    | some read => blockquote? read scope cur
  | list =>
    match nest with
    | none => .ok none
    | some read => list? read scope cur
  | html => .ok ((htmlBlock? cur.rest).map (·.map .leaf))
  | definition => .ok ((linkDefinition? scope cur.rest).map (·.map .leaf))
  | table => .ok ((table? scope cur).map (·.map .leaf))
  | paragraph => .ok ((paragraph? scope cur).map (·.map .leaf))
  | text => .ok (some ((anyText scope cur).map .leaf))
  | directive => .ok ((blockDirective? cur.rest).map (·.map .leaf))
  | note => .ok (note? scope cur.rest)
  | division => .ok (division? scope cur.rest)
  | video => .ok (video? scope cur.rest)

end BlockConstruct

/-- A rule for blocks. -/
inductive BlockRule where
  | standard (construct : BlockConstruct)
  | custom (name : String) (attempt : Scope → Cursor → Attempt Block)

namespace BlockRule

/-- The name that addresses a rule. -/
def name : BlockRule → String
  | standard c => c.name
  | custom name _ => name

/-- Tries a rule.  A token of a standard rule spans the characters that the rule reports. -/
def attempt (nest : Option BlockReader) (scope : Scope) (cur : Cursor) :
    BlockRule → Except Fault (Attempt Block)
  | standard c =>
    match c.recognize nest scope cur with
    | .error e => .error e
    | .ok none => .ok ⟨none, 0⟩
    | .ok (some m) => .ok ⟨some (.ofBody ⟨c.name, cur.spanOf m.length⟩ m.value), m.length⟩
  | custom _ f => .ok (f scope cur)

end BlockRule

/-! ## Inline rules -/

/-- The inline constructs of the language. -/
inductive InlineConstruct where
  | escape
  | autoLink
  | bareLink
  | tag
  | link
  | refLink
  | shortLink
  | strong
  | em
  | code
  | lineBreak
  | del
  /-- Plain text; `bareLinks` tells whether it also ends in front of bare addresses. -/
  | text (bareLinks : Bool)
  | directive
  | angledXref
  | shortXref
deriving DecidableEq

namespace InlineConstruct

/-- The name that addresses a construct in a rule set. -/
def name : InlineConstruct → String
  | escape => "escape"
  | autoLink => "autolink"
  | bareLink => "url"
  | tag => "tag"
  | link => "link"
  | refLink => "reflink"
  | shortLink => "nolink"
  | strong => "strong"
  | em => "em"
  | code => "code"
  | lineBreak => "br"
  | del => "del"
  | text _ => "text"
  | directive => "include_inline"
  | angledXref => "xref_auto"
  | shortXref => "xref_short"

/-- Tries to recognise a construct.  Links and emphasis need a reader for their content, which is
there as long as one more construct may be opened. -/
def recognize (defs : Definitions) (nest : Option InlineReader) (scope : Scope) (cur : Cursor) :
    InlineConstruct → Except Fault (Option (Found Inline.Body))
  | escape => .ok ((escape? cur.rest).map (·.map .leaf))
  | autoLink => .ok ((autoLink? cur.rest).map (·.map .leaf))
  | bareLink =>
    .ok (if scope.has Scope.isInLink then none else (bareLink? cur.rest).map (·.map .leaf))
  | tag => .ok ((tag? cur.rest).map (·.map .leaf))
  | link => linkVia (fun _ => destination?) nest scope cur
  | refLink => linkVia (reference? defs) nest scope cur
  | shortLink => linkVia (shortcut? defs) nest scope cur
  | strong =>
    framed .strong 2 ((betweenPairs? '*' cur.rest).or (betweenPairs? '_' cur.rest)) nest scope cur
  | em => framed .em 1 (betweenMarks? cur.rest) nest scope cur
  | code => .ok ((codeSpan? cur.rest).map (·.map .leaf))
  | lineBreak => .ok ((lineBreak? cur.rest).map (·.map .leaf))
  | del => framed .del 2 (betweenPairs? '~' cur.rest) nest scope cur
  | text bare => .ok ((plainText? bare cur.rest).map (·.map .leaf))
  | directive => .ok ((inlineDirective? cur.rest).map (·.map .leaf))
  | angledXref => .ok ((angledXref? cur.rest).map (·.map .leaf))
  | shortXref => .ok ((shortXref? cur.rest).map (·.map .leaf))

end InlineConstruct

/-- A rule for inlines. -/
inductive InlineRule where
  | standard (construct : InlineConstruct)
  | custom (name : String) (attempt : Scope → Cursor → Attempt Inline)

namespace InlineRule

/-- The name that addresses a rule. -/
def name : InlineRule → String
  | standard c => c.name
  | custom name _ => name

/-- Tries a rule.  A token of a standard rule spans the characters that the rule reports. -/
def attempt (defs : Definitions) (nest : Option InlineReader) (scope : Scope) (cur : Cursor) :
    InlineRule → Except Fault (Attempt Inline)
  | standard c =>
    match c.recognize defs nest scope cur with
    | .error e => .error e
    | .ok none => .ok ⟨none, 0⟩
    | .ok (some m) => .ok ⟨some (.ofBody ⟨c.name, cur.spanOf m.length⟩ m.value), m.length⟩
  | custom _ f => .ok (f scope cur)

end InlineRule

/-! ## Rule sets -/

/-- The rules of a dialect, in the order in which they are tried. -/
structure RuleSet where
  block : List BlockRule
  inline : List InlineRule

namespace RuleSet

/-- The set without rules. -/
def empty : RuleSet := ⟨[], []⟩

/-- The names of the block rules, in order. -/
def blockNames (rs : RuleSet) : List String := rs.block.map (·.name)

/-- The names of the inline rules, in order. -/
def inlineNames (rs : RuleSet) : List String := rs.inline.map (·.name)

/-- Puts `make r` in the place of the first rule `r` with the given name. -/
def splice {α : Type} (nameOf : α → String) (name : String) (make : α → List α) :
    List α → Except Fault (List α)
  | [] => .error (.unknownRule name)
  | r :: rs =>
    if nameOf r = name then .ok (make r ++ rs)
    else (splice nameOf name make rs).map (r :: ·)

/-- Changes the first block rule with the given name. -/
def editBlock (rs : RuleSet) (name : String) (make : BlockRule → List BlockRule) :
    Except Fault RuleSet :=
  (splice BlockRule.name name make rs.block).map fun block => { rs with block }

/-- Changes the first inline rule with the given name. -/
def editInline (rs : RuleSet) (name : String) (make : InlineRule → List InlineRule) :
    Except Fault RuleSet :=
  (splice InlineRule.name name make rs.inline).map fun inline => { rs with inline }

/-- Adds a block rule, to be tried last. -/
def addBlock (rs : RuleSet) (r : BlockRule) : RuleSet := { rs with block := rs.block ++ [r] }

/-- Adds an inline rule, to be tried last. -/
def addInline (rs : RuleSet) (r : InlineRule) : RuleSet := { rs with inline := rs.inline ++ [r] }

/-- Puts a rule in the place of the block rule with the given name. -/
def replaceBlock (rs : RuleSet) (name : String) (r : BlockRule) : Except Fault RuleSet :=
  rs.editBlock name fun _ => [r]

/-- Adds a rule to be tried right before the block rule with the given name. -/
def insertBlockBefore (rs : RuleSet) (name : String) (r : BlockRule) : Except Fault RuleSet :=
  rs.editBlock name fun old => [r, old]

/-- Adds a rule to be tried right after the block rule with the given name. -/
def insertBlockAfter (rs : RuleSet) (name : String) (r : BlockRule) : Except Fault RuleSet :=
  rs.editBlock name fun old => [old, r]

/-- Removes the block rule with the given name. -/
def removeBlock (rs : RuleSet) (name : String) : Except Fault RuleSet :=
  rs.editBlock name fun _ => []

/-- Puts a rule in the place of the inline rule with the given name. -/
def replaceInline (rs : RuleSet) (name : String) (r : InlineRule) : Except Fault RuleSet :=
  rs.editInline name fun _ => [r]

/-- Adds a rule to be tried right before the inline rule with the given name. -/
def insertInlineBefore (rs : RuleSet) (name : String) (r : InlineRule) : Except Fault RuleSet :=
  rs.editInline name fun old => [r, old]

/-- Adds a rule to be tried right after the inline rule with the given name. -/
def insertInlineAfter (rs : RuleSet) (name : String) (r : InlineRule) : Except Fault RuleSet :=
  rs.editInline name fun old => [old, r]

/-- Removes the inline rule with the given name. -/
def removeInline (rs : RuleSet) (name : String) : Except Fault RuleSet :=
  rs.editInline name fun _ => []

end RuleSet

end Docmark
