import Docmark.Construct.Html
import Docmark.Token.Inline

/-!
# Inline leaves

Escapes, addresses, code spans, line breaks and plain text: the inline constructs without inner
constructs.
-/

namespace Docmark

/-- The characters that a backslash makes literal. -/
def escapable : Text := "\\\x60*\x7b\x7d[]()#+-.!_<>~|@\"'".toList

/-- A backslash with the character that it makes literal. -/
def escape? (cs : Text) : Option (Found Inline.Leaf) :=
  match cs with
  | '\\' :: c :: _ => if escapable.contains c then some ⟨2, .escape [c]⟩ else none
  | _ => none

/-! ## Addresses -/

/-- A character of an address scheme behind its first letter. -/
def isSchemeChar (c : Char) : Bool := c.isAlphanum || c == '+' || c == '.' || c == '-'

/-- An address with a scheme of two to thirty-two characters. -/
def hasScheme (address : Text) : Bool :=
  match address with
  | [] => false
  | c :: rest =>
    let scheme := rest.takeWhile isSchemeChar
    c.isAlpha && decide (1 ≤ scheme.length) && decide (scheme.length ≤ 31) &&
      (rest.drop scheme.length).head? == some ':'

/-- An address of the form `user@host.domain`. -/
def isMailbox (address : Text) : Bool :=
  match splitOn '@' address with
  | [user, host] => !user.isEmpty && ((host.drop 1).dropLast).contains '.'
  | _ => false

/-- An address in angle brackets. -/
def autoLink? (cs : Text) : Option (Found Inline.Leaf) :=
  match cs with
  | '<' :: rest =>
    let address := rest.takeWhile fun c => !(isSpace c || c == '<' || c == '>')
    if rest[address.length]? = some '>' ∧ (hasScheme address ∨ isMailbox address) then
      let href := if ':' ∉ address ∧ '@' ∈ address then "mailto:".toList ++ address else address
      some ⟨address.length + 2, .autoLink href address⟩
    else none
  | _ => none

/-- The ways in which a bare address begins. -/
def bareSchemes : List Text := ["http://".toList, "https://".toList, "www.".toList]

/-- Punctuation that is not the end of a bare address. -/
def isTrailing (c : Char) : Bool := "?!.,:*_~)'\"".toList.contains c

/-- A bare address, up to white space or `<` and without the punctuation at its end. -/
def bareLink? (cs : Text) : Option (Found Inline.Leaf) :=
  match bareSchemes.find? (·.isPrefixOf cs) with
  | none => none
  | some scheme =>
    let run := (cs.drop scheme.length).takeWhile fun c => !(isSpace c || c == '<')
    let body := dropEndWhile isTrailing run
    if body.isEmpty then none
    else
      let address := scheme ++ body
      let href := if scheme = "www.".toList then "http://".toList ++ address else address
      some ⟨address.length, .autoLink href address⟩

/-! ## Tags, code spans and breaks -/

/-- A tag or a comment. -/
def tag? (cs : Text) : Option (Found Inline.Leaf) :=
  (tagLength? cs).map fun n => ⟨n, .tag (cs.take n)⟩

/-- The number of characters up to the end of the first run of exactly `run` backticks, where `seen`
backticks stand directly before the text. -/
def throughTicks? (run seen : Nat) : Text → Option Nat
  | [] => if seen = run then some 0 else none
  | c :: cs =>
    if c = '\x60' then (throughTicks? run (seen + 1) cs).map (· + 1)
    else if seen = run then some 0
    else (throughTicks? run 0 cs).map (· + 1)

/-- The code in a code span: line feeds are blanks, and one blank on either side is dropped unless
the code is blank. -/
def codeText (content : Text) : Text :=
  let code := content.map fun c => if c = '\n' then ' ' else c
  match code with
  | ' ' :: rest =>
    if rest.getLast? = some ' ' ∧ ¬ isBlank rest.dropLast then rest.dropLast else code
  | _ => code

/-- Code between two runs of equally many backticks. -/
def codeSpan? (cs : Text) : Option (Found Inline.Leaf) :=
  let run := (cs.takeWhile (· = '\x60')).length
  if run = 0 then none
  else (throughTicks? run 0 (cs.drop run)).map fun n =>
    ⟨run + n, .codeSpan (codeText ((cs.drop run).take (n - run)))⟩

/-- A line break: two or more blanks or a backslash in front of a line feed. -/
def lineBreak? (cs : Text) : Option (Found Inline.Leaf) :=
  match cs with
  | '\\' :: '\n' :: _ => some ⟨2, .br⟩
  | _ =>
    let blanks := (cs.takeWhile (· = ' ')).length
    if 2 ≤ blanks ∧ cs[blanks]? = some '\n' then some ⟨blanks + 1, .br⟩ else none

/-! ## Plain text -/

/-- Whether plain text ends in front of a text because a construct may begin there.  `previous` is
the character before it; `bare` tells whether bare addresses are constructs. -/
def stopsText (bare : Bool) (previous : Char) (cs : Text) : Bool :=
  match cs with
  | [] => true
  | c :: _ =>
    if "\\<![*\x60~".toList.contains c then true
    else if c = '_' ∨ c = '@' then !isAlphanumeric previous
    else if c = ' ' then
      let blanks := (cs.takeWhile (· = ' ')).length
      decide (2 ≤ blanks) && cs[blanks]? == some '\n'
    else if (c = 'h' ∨ c = 'w') ∧ bare ∧ ¬ isAlphanumeric previous then
      bareSchemes.any (·.isPrefixOf cs)
    else false

/-- The number of characters of plain text behind the character `previous`. -/
def plainLength (bare : Bool) (previous : Char) : Text → Nat
  | [] => 0
  | c :: cs => if stopsText bare previous (c :: cs) then 0 else plainLength bare c cs + 1

/-- Plain text: at least one character, and on to where a construct may begin. -/
def plainText? (bare : Bool) (cs : Text) : Option (Found Inline.Leaf) :=
  match cs with
  | [] => none
  | c :: rest =>
    let n := plainLength bare c rest + 1
    some ⟨n, .text (cs.take n)⟩

end Docmark
