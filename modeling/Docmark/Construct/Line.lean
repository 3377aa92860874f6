import Docmark.Text.Line

/-!
# What a line can begin

The tests that decide, from one line alone, whether it would begin a block of its own.  A paragraph
runs until a blank line or a line that begins such a block.
-/

namespace Docmark

/-- A heading marked by hashes. -/
def startsHeading (line : Text) : Bool :=
  let body := line.dropWhile (· = ' ')
  let hashes := (body.takeWhile (· = '#')).length
  decide (line.length - body.length ≤ 3) && decide (1 ≤ hashes) && decide (hashes ≤ 6) &&
    match body.drop hashes with
    | [] => true
    | c :: _ => c == ' ' || c == '\t' || c == '\n'

/-- A thematic break: three or more of one mark, with white space between them. -/
def isThematicBreak (line : Text) : Bool :=
  decide (indentation line ≤ 3) &&
    match line.filter (fun c => !isSpace c) with
    | [] => false
    | c :: cs =>
      (c == '-' || c == '*' || c == '_') && decide (2 ≤ cs.length) && cs.all (· == c)

/-- The opening line of fenced code. -/
def startsFence (line : Text) : Bool :=
  let body := trimStart line
  decide (indentation line ≤ 3) &&
    ("\x60\x60\x60".toList.isPrefixOf body || "~~~".toList.isPrefixOf body)

/-- A line of a block quote. -/
def startsQuote (line : Text) : Bool :=
  decide (indentation line ≤ 3) && (trimStart line).head? == some '>'

/-- The marker of a list item. -/
structure ListMarker where
  /-- The bullet, or the character behind the number. -/
  delimiter : Char
  /-- The number of an ordered item. -/
  number : Option Nat
  /-- The columns up to the content of the item. -/
  contentIndent : Nat
  /-- The characters up to the content of the item. -/
  contentOffset : Nat
deriving DecidableEq

namespace ListMarker

/-- Whether the marker counts its item. -/
def ordered (m : ListMarker) : Bool := m.number.isSome

/-- Whether an item marked by `next` belongs to a list whose first item is marked by `m`. -/
def continuedBy (m next : ListMarker) : Bool :=
  m.ordered == next.ordered && m.delimiter == next.delimiter

end ListMarker

/-- The most digits that the number of an item has. -/
def maxMarkerDigits : Nat := 9

/-- The value of a run of decimal digits. -/
def decimalValue (digits : Text) : Nat :=
  digits.foldl (fun n c => 10 * n + (c.toNat - '0'.toNat)) 0

/-- The bullet or number at the start of a text: its length, its delimiter and its value. -/
def markerSign? (cs : Text) : Option (Nat × Char × Option Nat) :=
  match cs with
  | [] => none
  | c :: _ =>
    if c = '-' ∨ c = '*' ∨ c = '+' then some (1, c, none)
    else
      let digits := cs.takeWhile Char.isDigit
      if digits.isEmpty ∨ maxMarkerDigits < digits.length then none
      else match cs.drop digits.length with
        | d :: _ =>
          if d = '.' ∨ d = ')' then some (digits.length + 1, d, some (decimalValue digits))
          else none
        | [] => none

/-- The marker at the start of a line.  It is followed by a blank or ends the line; more than four
blanks behind it leave all but one to the content. -/
def listMarker? (line : Text) : Option ListMarker :=
  let indent := indentation line
  if 3 < indent ∧ line.head? ≠ some '\t' then none
  else
    let body := line.dropWhile isPad
    match markerSign? body with
    | none => none
    | some (size, delimiter, number) =>
      let after := body.drop size
      let blanks := (after.takeWhile (· = ' ')).length
      let tail := after.drop blanks
      let atEnd := tail.isEmpty || tail.head? == some '\n'
      if blanks = 0 ∧ ¬ atEnd then none
      else
        let padding := if 4 < blanks ∨ atEnd then 1 else blanks
        let leading := line.length - body.length
        some {
          delimiter := delimiter
          number := number
          contentIndent := indent + size + padding
          contentOffset := leading + size + if atEnd then blanks else padding }

/-- Whether a line ends the paragraph before it.  Only where `lists` is set does a list item do
so. -/
def interruptsParagraph (lists : Bool) (line : Text) : Bool :=
  startsHeading line || isThematicBreak line || startsFence line || startsQuote line ||
    (lists && (listMarker? line).isSome)

/-- The lines of the paragraph at the start of a text.  The first line is always taken; a blank
first line stands alone. -/
def paragraphLines (lists : Bool) : List Text → List Text
  | [] => []
  | line :: rest =>
    if isBlank line then [line]
    else line :: rest.takeWhile fun l => !(isBlank l || interruptsParagraph lists l)

/-- The text of a paragraph: its lines without the white space in front of each and at the end. -/
def joinParagraph (paragraph : List Text) : Text := trimEnd (paragraph.flatMap trimStart)

end Docmark
