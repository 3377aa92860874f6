import Docmark.Construct.Leaf
import Docmark.Fault

/-!
# Block quotes and lists

The blocks that hold further blocks.  A container collects its lines, takes its own marks off them
and hands the text that is left to a reader of blocks, in a scope one level deeper.
-/

namespace Docmark

/-- Reads the blocks of a text that starts at a point of the file. -/
abbrev BlockReader := Scope → Text → Point → Except Fault (List Block)

/-! ## Block quotes -/

/-- A line without its quote mark and the blank or tab behind it. -/
def stripQuoteMark (line : Text) : Text :=
  let body := line.dropWhile (· = ' ')
  match (match body with | '>' :: rest => rest | _ => body) with
  | ' ' :: rest => rest
  | '\t' :: rest => rest
  | rest => rest

/-- The lines of the quote at the start of a text.  A paragraph in it may run on in lines without a
mark. -/
def quoteLines : List Text → List Text
  | [] => []
  | first :: rest =>
    if startsQuote first then
      first :: rest.takeWhile fun l =>
        startsQuote l || !(isBlank l || interruptsParagraph true l)
    else []

/-- What a line of a quote adds to the quoted text. -/
def quotedLine (line : Text) : Text :=
  if startsQuote line then stripQuoteMark line else trimStart line

/-- The text inside the quote at the start of a text. -/
def quotedText (quote : List Text) : Text := quote.flatMap quotedLine

/-- Whether a block is the marker of a callout. -/
def isCallout : Block → Bool
  | .node _ (.note _) _ => true
  | .node _ (.division _) _ => true
  | .leaf _ (.video _) => true
  | _ => false

/-- Adds a block at the end of a note or division, which then ends where the block ends. -/
def appendToCallout? (callout b : Block) : Option Block :=
  match callout with
  | .node h (.note kind) children =>
    some (.node { h with span := ⟨h.span.start, b.span.stop⟩ } (.note kind) (children ++ [b]))
  | .node h (.division attributes) children =>
    some (.node { h with span := ⟨h.span.start, b.span.stop⟩ } (.division attributes)
      (children ++ [b]))
  | _ => none

/-- Groups the blocks behind `last`, the block that was read before them. -/
def groupAfter (last : Block) : List Block → List Block
  | [] => [last]
  | b :: rest =>
    match (if isCallout b then none else appendToCallout? last b) with
    | some grown => groupAfter grown rest
    | none => last :: groupAfter b rest

/-- Moves the blocks that follow the marker of a note or division into it. -/
def groupCallouts : List Block → List Block
  | [] => []
  | b :: rest => groupAfter b rest

/-- A block quote. -/
def blockquote? (read : BlockReader) (scope : Scope) (cur : Cursor) :
    Except Fault (Option (Found Block.Body)) :=
  match quoteLines (lines cur.rest) with
  | [] => .ok none
  | quote =>
    match read (scope.nested Scope.isBlockQuote) (quotedText quote) cur.point with
    | .error e => .error e
    | .ok children => .ok (some ⟨quote.flatten.length, .node .blockquote (groupCallouts children)⟩)

/-! ## Lists -/

/-- An item as it is collected: where it lies in the text, in characters, and what it holds. -/
structure ItemScan where
  marker : ListMarker
  start : Nat
  stop : Nat
  content : Text
  /-- Whether a blank line stands between two of its lines. -/
  spaced : Bool

namespace ItemScan

/-- The item that starts with a line at `start`. -/
def ofLine (marker : ListMarker) (start : Nat) (line : Text) : ItemScan :=
  ⟨marker, start, start + line.length, line.drop marker.contentOffset, false⟩

/-- The item with one more line of its content, up to `stop`; `blank` tells whether a blank line
stands before it. -/
def addLine (item : ItemScan) (blank : Bool) (line : Text) (stop : Nat) : ItemScan :=
  { item with
    stop := stop
    content := item.content ++ (if blank then ['\n'] else []) ++ line
    spaced := item.spaced || blank }

end ItemScan

/-- The items of a list, and whether a blank line stands between two of them. -/
structure ListScan where
  items : List ItemScan
  spaced : Bool

/-- Collects the lines behind the line of an item.  `first` is the marker of the first item,
`offset` the number of characters read, and `blank` tells whether the last line was blank. -/
def scanItems (first : ListMarker) (item : ItemScan) (offset : Nat) (blank : Bool) :
    List Text → ListScan
  | [] => ⟨[item], false⟩
  | line :: rest =>
    let stop := offset + line.length
    if isBlank line then scanItems first item stop true rest
    else if item.marker.contentIndent ≤ indentation line then
      scanItems first (item.addLine blank (stripIndent item.marker.contentIndent line) stop) stop
        false rest
    else
      match (listMarker? line).filter fun m => !isThematicBreak line && first.continuedBy m with
      | some marker =>
        let scan := scanItems first (.ofLine marker offset line) stop false rest
        ⟨item :: scan.items, scan.spaced || blank⟩
      | none =>
        if !blank && !interruptsParagraph true line then
          scanItems first (item.addLine false (trimStart line) stop) stop false rest
        else ⟨[item], false⟩

/-- The list at the start of some lines. -/
def listScan? : List Text → Option (ListMarker × ListScan)
  | [] => none
  | line :: rest =>
    match listMarker? line with
    | none => none
    | some marker =>
      if isThematicBreak line then none
      else some (marker, scanItems marker (.ofLine marker 0 line) line.length false rest)

/-- Whether a list is spread out: some blank line stands between two items or inside one. -/
def ListScan.loose (s : ListScan) : Bool := s.spaced || s.items.any (·.spaced)

/-- Splits off the box of a task, and tells whether it is checked. -/
def splitTask (content : Text) : Option Bool × Text :=
  match content with
  | '[' :: ' ' :: ']' :: ' ' :: rest => (some false, rest)
  | '[' :: 'x' :: ']' :: ' ' :: rest => (some true, rest)
  | '[' :: 'X' :: ']' :: ' ' :: rest => (some true, rest)
  | _ => (none, content)

/-- The name under which lists and their items are made. -/
def listName : String := "list"

/-- Reads the content of one item. -/
def readItem (read : BlockReader) (scope : Scope) (cur : Cursor) (loose : Bool) (item : ItemScan) :
    Except Fault Block :=
  let (checked, content) := splitTask item.content
  match read (scope.nested Scope.isInList) content (cur.pointAt item.start) with
  | .error e => .error e
  | .ok children =>
    .ok (.node ⟨listName, ⟨cur.pointAt item.start, cur.pointAt item.stop⟩⟩
      (.listItem checked loose) children)

/-- A list of items, bulleted or ordered. -/
def list? (read : BlockReader) (scope : Scope) (cur : Cursor) :
    Except Fault (Option (Found Block.Body)) :=
  match listScan? (lines cur.rest) with
  | none => .ok none
  | some (marker, scan) =>
    match scan.items.mapM (readItem read scope cur scan.loose) with
    | .error e => .error e
    | .ok items =>
      let stop := (scan.items.getLast?.map (·.stop)).getD 0
      .ok (some ⟨stop, .node (.list marker.ordered marker.number scan.loose) items⟩)

end Docmark
