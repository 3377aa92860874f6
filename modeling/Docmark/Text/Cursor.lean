import Docmark.Text.Point

/-!
# Cursors

A cursor is the input that is still to be read, together with its place in the file.  It is moved
only by `take`, which yields the text passed over and its span.
-/

namespace Docmark

/-- The input that is still to be read. -/
structure Cursor where
  /-- What has not been read. -/
  rest : Text
  /-- The number of bytes read so far. -/
  consumed : Nat := 0
  /-- The place of the first character of `rest`. -/
  point : Point := Point.start

namespace Cursor

/-- A cursor on a text that starts at `origin` in its file. -/
def ofText (cs : Text) (origin : Point) : Cursor := { rest := cs, point := origin }

/-- Whether everything has been read. -/
def isDone (c : Cursor) : Bool := c.rest.isEmpty

/-- The cursor behind the next `n` characters, or at the end when fewer are left. -/
def drop (c : Cursor) (n : Nat) : Cursor where
  rest := c.rest.drop n
  consumed := c.consumed + byteLength (c.rest.take n)
  point := c.point.advance (c.rest.take n)

/-- The span of the next `n` characters. -/
def spanOf (c : Cursor) (n : Nat) : Span := ⟨c.point, (c.drop n).point⟩

/-- The place `n` characters ahead. -/
def pointAt (c : Cursor) (n : Nat) : Point := c.point.advance (c.rest.take n)

/-- The fewest characters at the start of a text that cover `bytes` bytes, or all of them. -/
def charsCovering : Nat → Text → Nat
  | 0, _ => 0
  | _ + 1, [] => 0
  | n + 1, c :: cs => charsCovering (n + 1 - c.utf8Size) cs + 1

/-- Reads `bytes` bytes, up to the end of the character that the last of them falls in, and no
further than the end of the input.  Yields the text read and its span. -/
def consume (c : Cursor) (bytes : Nat) : Text × Span × Cursor :=
  let n := charsCovering bytes c.rest
  (c.rest.take n, c.spanOf n, c.drop n)

/-- The longest excerpt that an error message shows, in characters. -/
def snippetLength : Nat := 40

/-- The start of the input that is left, for an error message. -/
def snippet (c : Cursor) : Text :=
  c.rest.take snippetLength ++ if snippetLength < c.rest.length then ['…'] else []

end Cursor

end Docmark
