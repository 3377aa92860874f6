import Docmark.Text.Blank

/-!
# Glob patterns

A pattern is a sequence of tokens, and each token tells which parts of the start of a text it may
take away: `Token.rests` lists what may be left.  A pattern matches a text when it may leave
nothing. Patterns work on the bytes of a path, so that a question mark takes one byte of a character
that has several.
-/

namespace Docmark.Glob

/-- The bytes of a path. -/
abbrev Bytes := List UInt8

/-- The bytes of a text. -/
def bytesOf (cs : Text) : Bytes := cs.flatMap String.utf8EncodeChar

/-- The byte that separates the names of a path. -/
def slash : UInt8 := 47

/-- A part of a pattern. -/
inductive Token where
  | literal (c : Char)
  /-- A question mark: one byte. -/
  | any
  /-- An asterisk: any number of bytes. -/
  | many
  /-- Two asterisks and a slash at the start: any number of directories. -/
  | leadingDirs
  /-- A slash and two asterisks at the end: everything below. -/
  | trailingDirs
  /-- Two asterisks between slashes: a slash, or one on either side of any directories. -/
  | innerDirs
  /-- One byte of some ranges, or of none of them. -/
  | oneOf (negated : Bool) (ranges : List (Char × Char))
  /-- One of several sequences; without any, nothing. -/
  | alternatives (branches : List (List Token))

/-- A pattern. -/
structure Pattern where
  tokens : List Token
  /-- Whether asterisks and question marks stop at a slash. -/
  slashBound : Bool

/-- The ends of a text, the text itself first, up to the first byte that is not to be passed. -/
def ends (pass : UInt8 → Bool) : Bytes → List Bytes
  | [] => [[]]
  | b :: s => (b :: s) :: if pass b then ends pass s else []

/-- What follows each slash of a text. -/
def afterSlashes : Bytes → List Bytes
  | [] => []
  | b :: s => if b = slash then s :: afterSlashes s else afterSlashes s

/-- The ranges of bytes that a range of characters stands for: the bytes of its two ends, where the
last of the one and the first of the other are the ends of a range. -/
def byteRanges (r : Char × Char) : List (UInt8 × UInt8) :=
  let low := String.utf8EncodeChar r.1
  let high := String.utf8EncodeChar r.2
  let single (bs : Bytes) : List (UInt8 × UInt8) := bs.map fun b => (b, b)
  if r.1 = r.2 then single low
  else single low.dropLast ++ (low.getLast?.getD 0, high.headD 0) :: single high.tail

section

variable (slashBound : Bool)

/-- Whether a wildcard passes a byte. -/
def passes (b : UInt8) : Bool := !(slashBound && b == slash)

mutual

/-- What may be left of a text behind a token. -/
def Token.rests : Token → Bytes → List Bytes
  | .literal c, s =>
    let bs := String.utf8EncodeChar c
    if bs.isPrefixOf s then [s.drop bs.length] else []
  | .any, s =>
    match s with
    | [] => []
    | b :: s => if passes slashBound b then [s] else []
  | .many, s => ends (passes slashBound) s
  | .leadingDirs, s => s :: afterSlashes s
  | .trailingDirs, s =>
    match s with
    | [] => []
    | b :: s => if b = slash then ends (fun _ => true) s else []
  | .innerDirs, s =>
    match s with
    | [] => []
    | b :: s => if b = slash then s :: afterSlashes s else []
  | .oneOf negated ranges, s =>
    match s with
    | [] => []
    | b :: s =>
      let inside := (ranges.flatMap byteRanges).any fun r => r.1 ≤ b && b ≤ r.2
      if inside = negated then [] else [s]
  | .alternatives branches, s => if branches.isEmpty then [s] else branchRests branches s

/-- What may be left of a text behind a sequence of tokens. -/
def seqRests : List Token → Bytes → List Bytes
  | [], s => [s]
  | t :: ts, s => ((t.rests s).flatMap (seqRests ts)).eraseDups

/-- What may be left of a text behind one of several sequences. -/
def branchRests : List (List Token) → Bytes → List Bytes
  | [], _ => []
  | b :: bs, s => seqRests b s ++ branchRests bs s

end

end

/-- Whether a pattern is two asterisks alone, perhaps repeated with slashes between. -/
def Pattern.isUniversal (g : Pattern) : Bool :=
  match g.tokens with
  | [.leadingDirs] => true
  | _ => false

/-- Whether a pattern matches a path. -/
def Pattern.accepts (g : Pattern) (p : Text) : Bool :=
  g.isUniversal || (seqRests g.slashBound g.tokens (bytesOf p)).contains []

end Docmark.Glob
