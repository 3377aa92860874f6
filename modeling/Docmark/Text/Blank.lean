/-!
# White space

The property `White_Space`, and the ways a text is cut at it: trimming at either end, splitting into
words, and the test for a blank text.  Texts are lists of characters throughout the tokenizer, so
that every one of these is a recursion on the text itself.
-/

namespace Docmark

/-- A text under analysis: its characters in order. -/
abbrev Text := List Char

/-- Membership of a character's code point in a list of closed ranges. -/
def inRanges (ranges : List (Nat × Nat)) (c : Char) : Bool :=
  ranges.any fun r => decide (r.1 ≤ c.toNat) && decide (c.toNat ≤ r.2)

/-- Characters above ASCII with the property `White_Space`. -/
def spaceRanges : List (Nat × Nat) := [
  (0x85, 0x85), (0xA0, 0xA0), (0x1680, 0x1680), (0x2000, 0x200A), (0x2028, 0x2029),
  (0x202F, 0x202F), (0x205F, 0x205F), (0x3000, 0x3000)]

/-- The property `White_Space`: the blank, the five controls from tab to carriage return, and the
blanks above ASCII. -/
def isSpace (c : Char) : Bool :=
  c == ' ' || (decide ('\t' ≤ c) && decide (c ≤ '\r')) ||
    (decide (128 ≤ c.toNat) && inRanges spaceRanges c)

/-- A blank or a tab: the only white space that indents and pads a line. -/
def isPad (c : Char) : Bool := c == ' ' || c == '\t'

/-- The text behind a `c` at its start; a text that starts otherwise stays as it is. -/
def dropFront (c : Char) : Text → Text
  | [] => []
  | d :: cs => if d = c then cs else d :: cs

/-- Drops the elements at the end that satisfy `p`. -/
def dropEndWhile (p : Char → Bool) (cs : Text) : Text :=
  (cs.reverse.dropWhile p).reverse

/-- The text without white space at its start. -/
def trimStart (cs : Text) : Text := cs.dropWhile isSpace

/-- The text without white space at its end. -/
def trimEnd (cs : Text) : Text := dropEndWhile isSpace cs

/-- The text without white space at its start and end. -/
def trim (cs : Text) : Text := trimEnd (trimStart cs)

/-- A text of white space only. -/
def isBlank (cs : Text) : Bool := cs.all isSpace

/-- The maximal runs of characters that are not white space, in order. -/
def words (cs : Text) : List Text := go cs []
where
  /-- `run` is the word being read, in reverse. -/
  go : Text → Text → List Text
    | [], run => if run.isEmpty then [] else [run.reverse]
    | c :: cs, run =>
      if isSpace c then
        if run.isEmpty then go cs [] else run.reverse :: go cs []
      else go cs (c :: run)

end Docmark
