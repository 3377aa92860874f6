import Docmark.Text.Blank

/-!
# Points and spans

A point is a place in a file, given by line, column and byte offset.  Points are moved by reading
characters, never by arithmetic on one of the three numbers alone, so that the three always belong
to the same place.  A span is the stretch between two points.
-/

namespace Docmark

/-- The number of bytes of a text. -/
def byteLength (cs : Text) : Nat := cs.foldl (fun n c => n + c.utf8Size) 0

/-- A place in a file.  Lines and columns count from one, and columns count characters; the offset
counts bytes from zero. -/
structure Point where
  line : Nat := 1
  column : Nat := 1
  offset : Nat := 0
deriving DecidableEq

namespace Point

/-- The start of a file. -/
def start : Point := {}

/-- The point behind a character that stands at `p`. -/
def step (p : Point) (c : Char) : Point :=
  if c = '\n' then ⟨p.line + 1, 1, p.offset + c.utf8Size⟩
  else ⟨p.line, p.column + 1, p.offset + c.utf8Size⟩

/-- The point behind a text that starts at `p`. -/
def advance (p : Point) (cs : Text) : Point := cs.foldl step p

@[simp] theorem advance_nil (p : Point) : p.advance [] = p := rfl

@[simp] theorem advance_cons (p : Point) (c : Char) (cs : Text) :
    p.advance (c :: cs) = (p.step c).advance cs := rfl

theorem advance_append (p : Point) (cs ds : Text) :
    p.advance (cs ++ ds) = (p.advance cs).advance ds := by
  simp [advance, List.foldl_append]

end Point

/-- The stretch of source text that a token was made from. -/
structure Span where
  start : Point
  stop : Point
deriving DecidableEq

namespace Span

/-- The number of bytes covered; zero when the ends are out of order. -/
def length (s : Span) : Nat := s.stop.offset - s.start.offset

/-- A span that covers no byte. -/
def isEmpty (s : Span) : Bool := s.length == 0

end Span

end Docmark
