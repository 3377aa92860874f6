import Docmark.Construct.Leaf
import Docmark.Text.Lowercase

/-!
# Link definitions

A line `[label]: href "title"` gives a name to a destination.  The destination may stand on the next
line, in angle brackets or bare, and a title in quotes or parentheses may follow it.
-/

namespace Docmark

/-- A destination with an optional title. -/
structure Destination where
  href : Text
  title : Option Text
deriving DecidableEq

/-- A label as it is looked up: its words in lower case, one blank between them. -/
def normalizeLabel (label : Text) : Text :=
  lowerText (List.intercalate [' '] (words label))

/-- The destinations that labels stand for, by normalized label. -/
abbrev Definitions := List (Text × Destination)

namespace Definitions

/-- The destination that a label stands for. -/
def find? (defs : Definitions) (label : Text) : Option Destination :=
  defs.lookup (normalizeLabel label)

/-- Adds a definition.  The first definition of a label stays. -/
def define (defs : Definitions) (label : Text) (d : Destination) : Definitions :=
  if (defs.find? label).isSome then defs else defs ++ [(normalizeLabel label, d)]

/-- Adds the definitions among some blocks, in order. -/
def addBlocks (defs : Definitions) (blocks : List Block) : Definitions :=
  blocks.foldl
    (fun defs b =>
      match b with
      | .leaf _ (.definition label href title) => defs.define label ⟨href, title⟩
      | _ => defs)
    defs

end Definitions

/-- The character that closes a title opened by `c`. -/
def titleCloser? (c : Char) : Option Char :=
  if c = '"' ∨ c = '\'' then some c else if c = '(' then some ')' else none

/-- A title on one line, behind white space: the title and what follows it. -/
def lineTitle? (cs : Text) : Option (Text × Text) :=
  match cs.dropWhile isPad with
  | [] => none
  | c :: rest =>
    match titleCloser? c with
    | none => none
    | some closer =>
      if (cs.takeWhile isPad).isEmpty then none
      else
        let title := rest.takeWhile fun d => d ≠ closer && d ≠ '\n'
        match rest.drop title.length with
        | d :: after => if d = closer then some (title, after) else none
        | [] => none

/-- The rest of a definition behind its destination: an optional title and the end of the line. -/
def definitionTail? (cs : Text) : Option (Option Text × Text) :=
  let (title, rest) := match lineTitle? cs with
    | some (title, rest) => (some title, rest)
    | none => (none, cs)
  (lineTail? rest).map fun left => (title, left)

/-- The destination at the start of a text and what follows it.  One pair of angle brackets around
it is dropped. -/
def definitionHref? (cs : Text) : Option (Text × Text) :=
  let ends (c : Char) : Bool := isSpace c || c == '>'
  let bare := dropFront '<' cs
  let body := if (bare.head?).all ends then cs else bare
  let href := body.takeWhile fun c => !ends c
  if href.isEmpty then none
  else some (href, dropFront '>' (body.drop href.length))

/-- The destination behind a label: on the same line or on the next one. -/
def definitionBody? (cs : Text) : Option (Destination × Text) :=
  let sameLine := cs.dropWhile isPad
  let start := match sameLine with
    | '\n' :: below => below.dropWhile isPad
    | rest => rest
  match definitionHref? start with
  | none => none
  | some (href, after) =>
    match definitionTail? after with
    | none => none
    | some (title, rest) => some (⟨href, title⟩, rest)

/-- A link definition.  Only the outermost blocks of a document define links. -/
def linkDefinition? (scope : Scope) (cs : Text) : Option (Found Block.Leaf) :=
  let body := cs.dropWhile (· = ' ')
  if ¬ scope.has Scope.isTop ∨ 3 < cs.length - body.length then none
  else match body with
    | '[' :: rest =>
      let label := rest.takeWhile fun c => c ≠ ']' && c ≠ '\n'
      match rest.drop label.length with
      | ']' :: ':' :: after =>
        if label.isEmpty ∨ label.head? = some '!' ∨ label.head? = some '^' then none
        else match definitionBody? after with
          | none => none
          | some (d, left) => some ⟨cs.length - left.length, .definition label d.href d.title⟩
      | _ => none
    | _ => none

end Docmark
