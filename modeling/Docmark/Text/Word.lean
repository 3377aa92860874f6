import Docmark.Text.Blank
import Docmark.Text.WordTables

/-!
# Letters, numbers and word characters

Two classes of characters that differ in what they add to the letters.  `isAlphanumeric` takes every
kind of number; `isWord` takes decimal digits only, and marks, connectors and joiners besides.
-/

namespace Docmark

/-- A letter: the property `Alphabetic`. -/
def isAlphabetic (c : Char) : Bool :=
  c.isAlpha || (decide (128 ≤ c.toNat) && inRanges alphabeticRanges c)

/-- A letter or a number: the properties `Alphabetic` and `Numeric`. -/
def isAlphanumeric (c : Char) : Bool :=
  c.isAlphanum ||
    (decide (128 ≤ c.toNat) && (inRanges alphabeticRanges c || inRanges otherNumericRanges c))

/-- A word character: a letter, a mark, a decimal digit, a connector or a join control. -/
def isWord (c : Char) : Bool :=
  c.isAlphanum || c == '_' ||
    (decide (128 ≤ c.toNat) && (inRanges alphabeticRanges c || inRanges otherWordRanges c))

end Docmark
