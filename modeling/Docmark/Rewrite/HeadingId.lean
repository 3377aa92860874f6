import Docmark.Rewrite.Basic
import Docmark.Text.Lowercase
import Docmark.Text.Word

/-!
# Heading ids

Every heading gets an id that no other heading of its document has.  An anchor in front of the
heading's text names the id; otherwise the text itself is turned into one.  An id that is taken gets
the next free number behind it.
-/

namespace Docmark

/-- What a character adds to an id made from text: letters, digits, hyphens and underscores are kept
in lower case, white space becomes a hyphen, and everything else is dropped. -/
def slugChar (c : Char) : Text :=
  if isAlphanumeric c ∨ c = '_' ∨ c = '-' then lowerChar c
  else if isSpace c then ['-']
  else []

/-- The id that a text is turned into. -/
def slugify (cs : Text) : Text :=
  let slug := (trim cs).flatMap slugChar
  if slug.isEmpty then "heading".toList else slug

/-! ## Explicit anchors -/

/-- Drops quotes at both ends. -/
def trimQuotes (cs : Text) : Text :=
  let quote (c : Char) : Bool := c == '"' || c == '\''
  dropEndWhile quote (cs.dropWhile quote)

/-- The id that an opening anchor tag gives with its only attribute, `name` or `id`. -/
def anchorId? (raw : Text) : Option Text :=
  match raw with
  | '<' :: a :: inner =>
    if a.toLower ≠ 'a' ∨ inner.getLast? ≠ some '>' ∨ ¬ inner.dropLast.head?.any isSpace then none
    else
      let setting := dropEndWhile (· = '/') (trim inner.dropLast)
      let key := trim (setting.takeWhile (· ≠ '='))
      let value := setting.dropWhile (· ≠ '=')
      let id := trimQuotes (trim (value.drop 1))
      if value.isEmpty ∨ (lowerAscii key ≠ "name".toList ∧ lowerAscii key ≠ "id".toList) ∨
          id.isEmpty ∨ id.any isSpace then none
      else some id
  | _ => none

/-- The id that a heading's content names in a leading anchor, and the content without the
anchor. -/
def leadingAnchor? (content : List Inline) : Option (Text × List Inline) :=
  match content with
  | .leaf _ (.tag opening) :: .leaf _ (.tag closing) :: rest =>
    if lowerAscii (trim closing) = "</a>".toList then
      (anchorId? opening).map fun id => (id, rest)
    else none
  | _ => none

/-! ## Unique ids -/

/-- The ids in use, each with the last number that was tried behind it. -/
abbrev UsedIds := List (Text × Nat)

/-- An id with a number behind it. -/
def numbered (base : Text) (n : Nat) : Text := base ++ '-' :: (toString n).toList

/-- The least number above `last` that makes an unused id. -/
def freeNumber (used : UsedIds) (base : Text) (last : Nat) : Nat :=
  let tries := (List.range (used.length + 1)).map (last + 1 + ·)
  (tries.find? fun n => (used.lookup (numbered base n)).isNone).getD (last + used.length + 1)

/-- The id that a heading gets instead of `base`, and the ids in use afterwards. -/
def uniqueId (used : UsedIds) (base : Text) : Text × UsedIds :=
  match used.lookup base with
  | none => (base, (base, 0) :: used)
  | some last =>
    let n := freeNumber used base last
    (numbered base n, (numbered base n, 0) :: (base, n) :: used)

/-- Gives every heading without an id one that is unique in its document.  Every document starts
with no ids in use, whatever the rewriter was used for before. -/
def headingIdRewriter : Rewriter UsedIds where
  initial := []
  before _ _ := modify fun s => ([], s.2)
  block _ b :=
    match b with
    | .leaf h (.heading depth none content) => do
      let (base, content) :=
        (leadingAnchor? content).getD (slugify (Inline.plainText content), content)
      let (used, journal) ← get
      let (id, used) := uniqueId used base
      set (used, journal)
      pure (some (.leaf h (.heading depth (some id) content)))
    | b => pure (some b)

end Docmark
