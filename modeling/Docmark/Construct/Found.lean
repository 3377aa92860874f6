import Docmark.Text.Cursor

/-!
# Findings

What a construct reports when it recognises the input at a cursor: how many characters belong to it
and what they are.  The span of the token is always computed from that number, in one place, so that
a construct cannot claim one stretch of source and consume another.
-/

namespace Docmark

/-- A construct of `length` characters at the start of the input. -/
structure Found (α : Type) where
  length : Nat
  value : α

namespace Found

/-- The same stretch of input, read as something else. -/
def map {α β : Type} (f : α → β) (m : Found α) : Found β := ⟨m.length, f m.value⟩

end Found

/-- The position of the first occurrence of `pattern` in a text. -/
def indexOf? (pattern : Text) : Text → Option Nat
  | [] => if pattern.isEmpty then some 0 else none
  | c :: cs =>
    if pattern.isPrefixOf (c :: cs) then some 0 else (indexOf? pattern cs).map (· + 1)

end Docmark
