import Docmark.Construct.Definition
import Docmark.Fault
import Docmark.Text.Word

/-!
# Links and emphasis

The inline constructs around further inlines.  Each finds its closing mark first and then hands the
text between the marks to a reader of inlines, in a scope one level deeper.
-/

namespace Docmark

/-- Reads the inlines of a text that starts at a point of the file. -/
abbrev InlineReader := Scope → Text → Point → Except Fault (List Inline)

/-! ## Labels and destinations -/

/-- The longest bracketed text of a link, in bytes. -/
def maxLabelBytes : Nat := 999

/-- The number of characters in front of the closing bracket of a label.  `depth` brackets are open
inside, `bytes` bytes have been read, and a backslash takes the next character out of account. -/
def labelLength? (depth : Nat) (escaped : Bool) (bytes : Nat) : Text → Option Nat
  | [] => none
  | c :: cs =>
    let more (depth : Nat) (escaped : Bool) :=
      (labelLength? depth escaped (bytes + c.utf8Size) cs).map (· + 1)
    if maxLabelBytes < bytes then none
    else if escaped then more depth false
    else if c = '\\' then more depth true
    else if c = '[' then more (depth + 1) false
    else if c = ']' then
      match depth with
      | 0 => some 0
      | depth + 1 => more depth false
    else more depth false

/-- The bracketed part of a link or an image. -/
structure Label where
  image : Bool
  text : Text

namespace Label

/-- The characters in front of the text. -/
def start (l : Label) : Nat := if l.image then 2 else 1

/-- The characters of the label with its brackets. -/
def length (l : Label) : Nat := l.start + l.text.length + 1

end Label

/-- The label at the start of a text. -/
def label? (cs : Text) : Option Label :=
  match cs with
  | '!' :: '[' :: rest => (labelLength? 0 false 0 rest).map fun n => ⟨true, rest.take n⟩
  | '[' :: rest => (labelLength? 0 false 0 rest).map fun n => ⟨false, rest.take n⟩
  | _ => none

/-- The number of characters of a bare destination: up to white space or to a parenthesis that it
did not open. -/
def bareHrefLength (depth : Nat) : Text → Nat
  | [] => 0
  | c :: cs =>
    if c = '(' then bareHrefLength (depth + 1) cs + 1
    else if c = ')' then
      match depth with
      | 0 => 0
      | depth + 1 => bareHrefLength depth cs + 1
    else if isSpace c then 0
    else bareHrefLength depth cs + 1

/-- The destination of a link, in angle brackets or bare, and what follows it. -/
def linkHref? (cs : Text) : Option (Text × Text) :=
  match cs with
  | '<' :: rest =>
    let href := rest.takeWhile fun c => c ≠ '>' && c ≠ '\n'
    match rest.drop href.length with
    | '>' :: after => some (href, after)
    | _ => none
  | _ => some (cs.take (bareHrefLength 0 cs), cs.drop (bareHrefLength 0 cs))

/-- The title at the start of a text, if one opens there, and what follows it and the white space
behind it.  A title that is opened has to be closed. -/
def linkTitle? (cs : Text) : Option (Option Text × Text) :=
  match cs with
  | [] => some (none, [])
  | c :: rest =>
    match titleCloser? c with
    | none => some (none, cs)
    | some closer =>
      let title := rest.takeWhile (· ≠ closer)
      match rest.drop title.length with
      | [] => none
      | _ :: after => some (some title, trimStart after)

/-- The part of a link behind its label, `(href "title")`. -/
def destination? (cs : Text) : Option (Found Destination) :=
  match cs with
  | '(' :: inner =>
    match linkHref? (trimStart inner) with
    | none => none
    | some (href, after) =>
      match linkTitle? (trimStart after) with
      | some (title, ')' :: left) => some ⟨cs.length - left.length, ⟨href, title⟩⟩
      | _ => none
  | _ => none

/-! ## Links -/

/-- Whether a label may become a link or image in a scope.  An image is a leaf; a link may not stand
in a link and needs one more level. -/
def Label.allowed (l : Label) (scope : Scope) (nest : Option InlineReader) : Bool :=
  l.image || (!scope.has Scope.isInLink && nest.isSome)

/-- The link or image with the given label and destination, of `length` characters. -/
def Label.toInline (l : Label) (d : Destination) (length : Nat) (nest : Option InlineReader)
    (scope : Scope) (cur : Cursor) : Except Fault (Option (Found Inline.Body)) :=
  if l.image then .ok (some ⟨length, .leaf (.image d.href d.title l.text)⟩)
  else match nest with
    | none => .ok none
    | some read =>
      match read scope.insideLink l.text (cur.pointAt l.start) with
      | .error e => .error e
      | .ok children => .ok (some ⟨length, .node (.link d.href d.title) children⟩)

/-- Reads a link or image whose destination `target` finds from the label and what follows it. -/
def linkVia (target : Label → Text → Option (Found Destination)) (nest : Option InlineReader)
    (scope : Scope) (cur : Cursor) : Except Fault (Option (Found Inline.Body)) :=
  match label? cur.rest with
  | none => .ok none
  | some l =>
    if l.allowed scope nest then
      match target l (cur.rest.drop l.length) with
      | none => .ok none
      | some d => l.toInline d.value (l.length + d.length) nest scope cur
    else .ok none

/-- The destination of a reference `[label]` behind a link text; an empty label stands for the text
itself. -/
def reference? (defs : Definitions) (l : Label) (cs : Text) : Option (Found Destination) :=
  match cs with
  | '[' :: rest =>
    let key := rest.takeWhile (· ≠ ']')
    if key.length = rest.length ∨ '[' ∈ key then none
    else (defs.find? (if key.isEmpty then l.text else key)).map fun d => ⟨key.length + 2, d⟩
  | _ => none

/-- The destination of a label that is its own reference. -/
def shortcut? (defs : Definitions) (l : Label) (_ : Text) : Option (Found Destination) :=
  (defs.find? l.text).map fun d => ⟨0, d⟩

/-! ## Emphasis -/

/-- The number of characters in front of the closing pair of marks: two marks that no third follows,
not at the start of the text and not escaped. -/
def closingPair? (mark : Char) (atStart : Bool) : Text → Option Nat
  | [] => none
  | '\\' :: cs =>
    match cs with
    | [] => none
    | _ :: rest => (closingPair? mark false rest).map (· + 2)
  | c :: cs =>
    if ¬ atStart ∧ c = mark ∧ cs.head? = some mark ∧ (cs.drop 1).head? ≠ some mark then some 0
    else (closingPair? mark false cs).map (· + 1)

/-- The text between two pairs of marks at the start of a text, if it neither starts nor ends with
white space. -/
def betweenPairs? (mark : Char) (cs : Text) : Option Text :=
  match cs with
  | a :: b :: content =>
    if a = mark ∧ b = mark ∧ ¬ content.head?.any isSpace then
      match closingPair? mark true content with
      | none => none
      | some n =>
        if (content.take n).getLast?.any isSpace then none else some (content.take n)
    else none
  | _ => none

/-- The number of characters in front of the closing mark of emphasis.  Pairs of marks and escaped
marks are passed over, and so is an underscore inside a word. -/
def closingMark? (mark : Char) (atStart : Bool) : Text → Option Nat
  | [] => none
  | '\\' :: cs =>
    match cs with
    | [] => none
    | _ :: rest => (closingMark? mark false rest).map (· + 2)
  | c :: cs =>
    if c ≠ mark then (closingMark? mark false cs).map (· + 1)
    else match cs with
      | [] => if atStart then none else some 0
      | d :: rest =>
        if d = mark then (closingMark? mark false rest).map (· + 2)
        else if atStart then none
        else if mark = '_' ∧ isAlphanumeric d then (closingMark? mark false (d :: rest)).map (· + 1)
        else some 0

/-- The text between two marks at the start of a text, if it neither starts nor ends with white
space. -/
def betweenMarks? (cs : Text) : Option Text :=
  match cs with
  | [] => none
  | mark :: content =>
    if (mark = '*' ∨ mark = '_') ∧ ¬ content.head?.any isSpace then
      match closingMark? mark true content with
      | none => none
      | some n =>
        if (content.take n).getLast?.any isSpace then none else some (content.take n)
    else none

/-- A frame around the inlines of `content`, with marks of `size` characters on both sides. -/
def framed (frame : Inline.Frame) (size : Nat) (content : Option Text) (nest : Option InlineReader)
    (scope : Scope) (cur : Cursor) : Except Fault (Option (Found Inline.Body)) :=
  match nest, content with
  | some read, some content =>
    match read scope.descend content (cur.pointAt size) with
    | .error e => .error e
    | .ok children => .ok (some ⟨content.length + 2 * size, .node frame children⟩)
  | _, _ => .ok none

end Docmark
