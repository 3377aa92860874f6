import Docmark.Construct.Leaf
import Docmark.Text.Lowercase
import Docmark.Text.Word

/-!
# Directives, callouts and cross references

The constructs in square brackets that start with an exclamation mark: the inclusion of another
file, and the markers of notes, divisions and videos in block quotes.  Their keywords are read
without regard to case.  Cross references name a target by its identifier.
-/

namespace Docmark

/-- What follows `[!keyword` at the start of a text, in any case. -/
def afterKeyword? (keyword : String) (cs : Text) : Option Text :=
  let opening := "[!".toList ++ keyword.toList
  if lowerAscii (cs.take opening.length) = opening then some (cs.drop opening.length) else none

/-! ## Include directives -/

/-- The bracketed title of a directive, behind its opening bracket: the title and what follows the
closing bracket.  Brackets in the title are nested one deep at most; `inner` tells whether one is
open. -/
def bracketedTitle? (inner : Bool) : Text → Option (Text × Text)
  | [] => none
  | c :: cs =>
    let keep (next : Bool) := (bracketedTitle? next cs).map fun r => (c :: r.1, r.2)
    if c = '\n' then none
    else if c = '[' then if inner then none else keep true
    else if c = ']' then if inner then keep false else some ([], cs)
    else keep inner

/-- What follows a quoted remark with white space in front of it; the text itself if there is
none. -/
def skipRemark (cs : Text) : Text :=
  match cs.dropWhile isPad with
  | [] => cs
  | q :: rest =>
    if (q = '"' ∨ q = '\'') ∧ cs.head?.any isPad then
      match rest.dropWhile fun c => c ≠ q && c ≠ '\n' with
      | c :: after => if c = q then after else cs
      | [] => cs
    else cs

/-- What follows the end of a directive, `)]` behind an optional remark. -/
def directiveEnd? (cs : Text) : Option Text :=
  match (skipRemark cs).dropWhile isPad with
  | ')' :: ']' :: rest => some rest
  | _ => none

/-- A path in angle brackets, with them, and what follows it. -/
def angledPath? (cs : Text) : Option (Text × Text) :=
  match cs with
  | '<' :: rest =>
    let inner := rest.takeWhile fun c => c ≠ '>' && c ≠ '\n'
    match rest.drop inner.length with
    | '>' :: after => some ('<' :: inner ++ ['>'], after)
    | _ => none
  | _ => none

/-- A path without white space and closing parenthesis, and what follows it. -/
def barePath? (cs : Text) : Option (Text × Text) :=
  let path := cs.takeWhile fun c => !isSpace c && c ≠ ')'
  if path.isEmpty then none else some (path, cs.drop path.length)

/-- The path of a directive and what follows the directive.  A path in angle brackets is tried
first; `tail` reads what has to follow. -/
def directivePath? (tail : Text → Option Text) (cs : Text) : Option (Text × Text) :=
  let finish (r : Text × Text) : Option (Text × Text) :=
    ((directiveEnd? r.2).bind tail).map fun left => (r.1, left)
  ((angledPath? cs).bind finish).or ((barePath? cs).bind finish)

/-- The path without its angle brackets and the white space around it. -/
def unwrapPath (path : Text) : Text :=
  trim <| match path with
    | '<' :: inner => if inner.getLast? = some '>' then inner.dropLast else path
    | _ => path

/-- An include directive at the start of a text.  `sign` may follow the keyword, and `tail` reads
what has to follow the directive. -/
def directive? (sign : Char) (tail : Text → Option Text) (cs : Text) : Option (Found Directive) :=
  match afterKeyword? "include" cs with
  | none => none
  | some after =>
    match dropFront sign after with
    | '[' :: rest =>
      match bracketedTitle? false rest with
      | some (title, '(' :: target) =>
        match directivePath? tail (target.dropWhile isPad) with
        | none => none
        | some (path, left) =>
          let length := cs.length - left.length
          if (unwrapPath path).isEmpty then none
          else some ⟨length, ⟨title, unwrapPath path, trimEnd (cs.take length)⟩⟩
      | _ => none
    | _ => none

/-- An include directive that fills its line. -/
def blockDirective? (cs : Text) : Option (Found Block.Leaf) :=
  (directive? '+' lineTail? cs).map (·.map .directive)

/-- An include directive within a line. -/
def inlineDirective? (cs : Text) : Option (Found Inline.Leaf) :=
  (directive? '-' some cs).map (·.map .directive)

/-! ## Callouts -/

/-- The kinds of notes. -/
def noteKinds : List String := ["note", "tip", "warning", "important", "caution"]

/-- The marker of a note, with the white space behind it. -/
def note? (scope : Scope) (cs : Text) : Option (Found Block.Body) :=
  if ¬ scope.has Scope.isBlockQuote then none
  else noteKinds.findSome? fun kind =>
    match afterKeyword? kind cs with
    | some (']' :: rest) =>
      let left := match lineTail? rest with
        | some left => some left
        | none => if rest.head?.any isPad then some (rest.dropWhile isPad) else none
      left.map fun left =>
        ⟨cs.length - left.length, .node (.note (upperAscii kind.toList)) []⟩
    | _ => none

/-- The marker of a division, with its attributes. -/
def division? (scope : Scope) (cs : Text) : Option (Found Block.Body) :=
  if ¬ scope.has Scope.isBlockQuote then none
  else match afterKeyword? "div" cs with
    | none => none
    | some after =>
      let pads := after.takeWhile isPad
      let body := if pads.isEmpty then [] else
        (after.drop pads.length).takeWhile fun c => c ≠ ']' && c ≠ '\n'
      match after.drop (pads.length + body.length) with
      | ']' :: rest =>
        (lineTail? rest).map fun left =>
          ⟨cs.length - left.length, .node (.division (trim body)) []⟩
      | _ => none

/-- A video. -/
def video? (scope : Scope) (cs : Text) : Option (Found Block.Body) :=
  if ¬ scope.has Scope.isBlockQuote then none
  else match afterKeyword? "video" cs with
    | none => none
    | some after =>
      let pads := after.takeWhile isPad
      let url := (after.drop pads.length).takeWhile fun c => c ≠ ']' && !isSpace c
      if pads.isEmpty ∨ url.isEmpty then none
      else match after.drop (pads.length + url.length) with
        | ']' :: rest =>
          (lineTail? rest).map fun left => ⟨cs.length - left.length, .leaf (.video url)⟩
        | _ => none

/-! ## Cross references -/

/-- A cross reference in angle brackets, `<xref:uid>`. -/
def angledXref? (cs : Text) : Option (Found Inline.Leaf) :=
  let opening := "<xref:".toList
  if opening.isPrefixOf cs then
    let uid := (cs.drop opening.length).takeWhile fun c => !(isSpace c || c == '<' || c == '>')
    let length := opening.length + uid.length + 1
    if uid.isEmpty ∨ cs[length - 1]? ≠ some '>' then none
    else some ⟨length, .xref uid (cs.take length)⟩
  else none

/-- A character of a bare identifier, which may not end with every one of them. -/
def isUidChar (c : Char) : Bool := isWord c || ".-*#?\x60()".toList.contains c

/-- A character that a bare identifier may end with. -/
def isUidEnd (c : Char) : Bool := isWord c || "*#\x60()".toList.contains c

/-- The identifier behind `@`, and the number of characters it takes there. -/
def shortUid? (cs : Text) : Option (Found Text) :=
  match cs with
  | [] => none
  | c :: rest =>
    if c = '"' ∨ c = '\'' then
      let uid := rest.takeWhile fun d => d ≠ c && d ≠ '\n'
      if uid.isEmpty ∨ rest[uid.length]? ≠ some c then none else some ⟨uid.length + 2, uid⟩
    else if c.isAlpha then
      let uid := c :: dropEndWhile (fun d => !isUidEnd d) (rest.takeWhile isUidChar)
      some ⟨uid.length, uid⟩
    else none

/-- A cross reference `@uid`, bare or in quotes. -/
def shortXref? (cs : Text) : Option (Found Inline.Leaf) :=
  match cs with
  | '@' :: rest =>
    (shortUid? rest).map fun m => ⟨m.length + 1, .xref m.value (cs.take (m.length + 1))⟩
  | _ => none

end Docmark
