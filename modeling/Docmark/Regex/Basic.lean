import Docmark.Text.Word

/-!
# Regular expressions

Expressions over characters, with the looks that take nothing but ask for their surroundings.
`Matches` says which parts of a text an expression matches; it leaves open which of several matches
a search finds.  What a named class holds, and which characters differ in case only, is left to an
alphabet.
-/

namespace Docmark.Regex

/-- The knowledge about characters that expressions build on. -/
structure Alphabet where
  /-- Whether a character has a property, given the normal form of the property's name. -/
  hasProperty : Text → Char → Prop
  /-- Whether two characters differ in case only, or not at all. -/
  sameLetter : Char → Char → Prop

/-- A set of characters. -/
inductive CharSet where
  /-- The characters from one to another. -/
  | range (low high : Char)
  /-- The characters with a property, given the normal form of its name. -/
  | property (name : Text)
  | space
  | word
  | none
  | complement (s : CharSet)
  | union (s t : CharSet)
  | inter (s t : CharSet)
  /-- The characters of a set and those that differ from them in case only. -/
  | anyCase (s : CharSet)
deriving DecidableEq

namespace CharSet

/-- The set of one character. -/
def single (c : Char) : CharSet := range c c

/-- The characters of the first set that are not in the second. -/
def diff (s t : CharSet) : CharSet := inter s (complement t)

/-- The characters of exactly one of two sets. -/
def symmDiff (s t : CharSet) : CharSet := union (diff s t) (diff t s)

/-- The set, or its complement. -/
def negateIf (negated : Bool) (s : CharSet) : CharSet := if negated then complement s else s

/-- Membership in a set. -/
def Has (a : Alphabet) : CharSet → Char → Prop
  | range low high, c => low ≤ c ∧ c ≤ high
  | property name, c => a.hasProperty name c
  | space, c => isSpace c
  | word, c => isWord c
  | none, _ => False
  | complement s, c => ¬ s.Has a c
  | union s t, c => s.Has a c ∨ t.Has a c
  | inter s t, c => s.Has a c ∧ t.Has a c
  | anyCase s, c => ∃ d, a.sameLetter c d ∧ s.Has a d

end CharSet

/-- A question about the surroundings of a place. -/
inductive Look where
  | textStart
  | textEnd
  /-- The start of a line; with `crlf`, carriage returns end lines too. -/
  | lineStart (crlf : Bool)
  | lineEnd (crlf : Bool)
  /-- A word starts or ends here. -/
  | wordBoundary (w : CharSet)
  | notWordBoundary (w : CharSet)
  | wordStart (w : CharSet)
  | wordEnd (w : CharSet)
  /-- No word character stands in front. -/
  | wordStartHalf (w : CharSet)
  /-- No word character follows. -/
  | wordEndHalf (w : CharSet)
deriving DecidableEq

/-- Whether a line break separates two places: the end of a line stands in front of it. -/
def endsLine (crlf : Bool) (before after : Text) : Prop :=
  after = [] ∨ (after.head? = some '\n' ∧ ¬ (crlf ∧ before.getLast? = some '\r')) ∨
    (crlf ∧ after.head? = some '\r')

/-- Whether a line starts between two texts. -/
def startsLine (crlf : Bool) (before after : Text) : Prop :=
  before = [] ∨ before.getLast? = some '\n' ∨
    (crlf ∧ before.getLast? = some '\r' ∧ after.head? ≠ some '\n')

/-- Whether a look holds between two texts. -/
def Look.Holds (a : Alphabet) (before after : Text) : Look → Prop
  | textStart => before = []
  | textEnd => after = []
  | lineStart crlf => startsLine crlf before after
  | lineEnd crlf => endsLine crlf before after
  | wordBoundary w => ¬ ((∃ c ∈ before.getLast?, w.Has a c) ↔ ∃ c ∈ after.head?, w.Has a c)
  | notWordBoundary w => (∃ c ∈ before.getLast?, w.Has a c) ↔ ∃ c ∈ after.head?, w.Has a c
  | wordStart w => (¬ ∃ c ∈ before.getLast?, w.Has a c) ∧ ∃ c ∈ after.head?, w.Has a c
  | wordEnd w => (∃ c ∈ before.getLast?, w.Has a c) ∧ ¬ ∃ c ∈ after.head?, w.Has a c
  | wordStartHalf w => ¬ ∃ c ∈ before.getLast?, w.Has a c
  | wordEndHalf w => ¬ ∃ c ∈ after.head?, w.Has a c

/-- A regular expression. -/
inductive Expr where
  | empty
  | look (l : Look)
  /-- One character of a set. -/
  | oneOf (s : CharSet)
  | seq (e f : Expr)
  | alt (e f : Expr)
  /-- The expression at least `low` times, and at most `high` times if that is given.  A greedy
  repetition prefers more times to fewer. -/
  | repeated (low : Nat) (high : Option Nat) (greedy : Bool) (e : Expr)
  | group (e : Expr)
deriving DecidableEq

/-- The expressions in a row. -/
def Expr.ofList : List Expr → Expr
  | [] => .empty
  | [e] => e
  | e :: es => .seq e (ofList es)

/-- One of several expressions, the first ones preferred. -/
def Expr.oneOfList : List Expr → Expr
  | [] => .empty
  | [e] => e
  | e :: es => .alt e (oneOfList es)

/-- `e.Matches a before taken after`: in the text that consists of the three parts, the expression
matches the middle one. -/
inductive Expr.Matches (a : Alphabet) : Expr → Text → Text → Text → Prop
  | empty {before after : Text} : Matches a .empty before [] after
  | look {l : Look} {before after : Text} (h : l.Holds a before after) :
      Matches a (.look l) before [] after
  | oneOf {s : CharSet} {c : Char} {before after : Text} (h : s.Has a c) :
      Matches a (.oneOf s) before [c] after
  | seq {e f : Expr} {before x y after : Text} (he : Matches a e before x (y ++ after))
      (hf : Matches a f (before ++ x) y after) : Matches a (.seq e f) before (x ++ y) after
  | altLeft {e f : Expr} {before x after : Text} (h : Matches a e before x after) :
      Matches a (.alt e f) before x after
  | altRight {e f : Expr} {before x after : Text} (h : Matches a f before x after) :
      Matches a (.alt e f) before x after
  | stop {high : Option Nat} {greedy : Bool} {e : Expr} {before after : Text} :
      Matches a (.repeated 0 high greedy e) before [] after
  | again {low : Nat} {high : Option Nat} {greedy : Bool} {e : Expr} {before x y after : Text}
      (hhigh : high ≠ some 0) (he : Matches a e before x (y ++ after))
      (hrest : Matches a (.repeated (low - 1) (high.map (· - 1)) greedy e) (before ++ x) y after) :
      Matches a (.repeated low high greedy e) before (x ++ y) after
  | group {e : Expr} {before x after : Text} (h : Matches a e before x after) :
      Matches a (.group e) before x after

end Docmark.Regex
