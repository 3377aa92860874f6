import Docmark.Text.Blank
import Docmark.Text.CaseTables

/-!
# Lower case

Lower-casing of one character is the full mapping of the character database, in which only the
dotted capital I becomes two characters.  Lower-casing of a text differs from it in one place: a
capital sigma at the end of a word becomes the final form.
-/

namespace Docmark

namespace CaseRun

/-- Whether the run maps the code point `n`. -/
def covers (r : CaseRun) (n : Nat) : Bool :=
  decide (r.first ≤ n) && decide (n ≤ r.last) && (n - r.first) % r.step == 0

/-- The image of a code point that the run maps. -/
def apply (r : CaseRun) (n : Nat) : Char := Char.ofNat (r.image + (n - r.first))

end CaseRun

/-- The lower-case form of a character. -/
def lowerChar (c : Char) : List Char :=
  if c.toNat < 128 then [c.toLower]
  else if c = 'İ' then ['i', '\u0307']
  else match lowerRuns.find? (·.covers c.toNat) with
    | some r => [r.apply c.toNat]
    | none => [c]

/-- A character with upper, lower or title case. -/
def isCased (c : Char) : Bool :=
  c.isAlpha || (decide (128 ≤ c.toNat) && inRanges casedRanges c)

/-- A character that is passed over when the end of a word is sought. -/
def isCaseIgnorable (c : Char) : Bool :=
  c == '\'' || c == '.' || c == ':' || c == '^' || c == '\x60' ||
    (decide (128 ≤ c.toNat) && inRanges caseIgnorableRanges c)

/-- Whether the first character that is not ignorable is cased. -/
def startsCased (cs : Text) : Bool :=
  match cs.dropWhile isCaseIgnorable with
  | [] => false
  | c :: _ => isCased c

/-- The lower-case form of a text. -/
def lowerText (cs : Text) : Text := go [] cs
where
  /-- `before` is the part already read, in reverse. -/
  go (before : Text) : Text → Text
    | [] => []
    | c :: cs =>
      let image :=
        if c = 'Σ' then
          if startsCased before && !startsCased cs then ['ς'] else ['σ']
        else lowerChar c
      image ++ go (c :: before) cs

/-- The text with ASCII letters in lower case. -/
def lowerAscii (cs : Text) : Text := cs.map Char.toLower

/-- The text with ASCII letters in upper case. -/
def upperAscii (cs : Text) : Text := cs.map Char.toUpper

end Docmark
