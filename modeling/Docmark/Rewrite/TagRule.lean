import Docmark.Construct.Found
import Docmark.Rewrite.Basic
import Docmark.Text.Lowercase

/-!
# Rules on HTML tags

A rule names tags that a document should not use.  Every tag in the raw HTML of a document that a
rule names is reported at its own place.
-/

namespace Docmark

/-- Tags that a document should not use. -/
structure TagRule where
  /-- The names of the tags; case does not matter. -/
  tags : List Text
  severity : Severity := .warning
  /-- The wording of the report, in which `{tag}` stands for the name of the tag. -/
  message : Option Text := none
  /-- Whether closing tags are left out. -/
  openOnly : Bool := false
deriving DecidableEq

/-- A tag in raw HTML. -/
structure HtmlTag where
  /-- The characters in front of it. -/
  offset : Nat
  name : Text
  closing : Bool
deriving DecidableEq

/-- The tag that starts behind a `<` at `offset`. -/
def tagAt? (offset : Nat) (cs : Text) : Option HtmlTag :=
  let closing := cs.head? == some '/'
  let name := (if closing then cs.drop 1 else cs).takeWhile fun c => c.isAlphanum || c == '-'
  if name.head?.any Char.isAlpha then some ⟨offset, name, closing⟩ else none

/-- The tags in raw HTML that starts at `offset`.  Comments are passed over; `skip` characters of
one are still to go. -/
def tagsFrom (offset skip : Nat) : Text → List HtmlTag
  | [] => []
  | c :: cs =>
    match skip with
    | skip + 1 => tagsFrom (offset + 1) skip cs
    | 0 =>
      if c = '<' then
        if "!--".toList.isPrefixOf cs then
          match indexOf? "-->".toList cs with
          | some n => tagsFrom (offset + 1) (n + 3) cs
          | none => []
        else (tagAt? offset cs).toList ++ tagsFrom (offset + 1) 0 cs
      else tagsFrom (offset + 1) 0 cs

/-- The tags in raw HTML, with the characters in front of each. -/
def htmlTags (html : Text) : List HtmlTag := tagsFrom 0 0 html

/-- Replaces every occurrence of `pattern`; `skip` characters of one are still to go. -/
def replaceFrom (pattern replacement : Text) (skip : Nat) : Text → Text
  | [] => []
  | c :: cs =>
    match skip with
    | skip + 1 => replaceFrom pattern replacement skip cs
    | 0 =>
      if pattern.isPrefixOf (c :: cs) then
        replacement ++ replaceFrom pattern replacement (pattern.length - 1) cs
      else c :: replaceFrom pattern replacement 0 cs

namespace TagRule

/-- Whether a rule is about a tag. -/
def covers (r : TagRule) (tag : HtmlTag) : Bool :=
  !(r.openOnly && tag.closing) && r.tags.any fun name => lowerAscii name == lowerAscii tag.name

/-- What a rule has to say about a tag. -/
def messageFor (r : TagRule) (tag : HtmlTag) : Text :=
  match r.message with
  | some message => replaceFrom "\x7btag\x7d".toList tag.name 0 message
  | none => "HTML tag <".toList ++ tag.name ++ "> is not allowed".toList

/-- The report on a tag in raw HTML that starts at a point of a file. -/
def report (r : TagRule) (file : Option Path) (start : Point) (html : Text) (tag : HtmlTag) :
    Diagnostic :=
  { (Diagnostic.warning .disallowedTag (r.messageFor tag)).at_ file
      (start.advance (html.take tag.offset)) with severity := r.severity }

/-- The reports on some raw HTML, tag by tag. -/
def reports (rules : List TagRule) (file : Option Path) (start : Point) (html : Text) :
    List Diagnostic :=
  (htmlTags html).flatMap fun tag =>
    (rules.filter (·.covers tag)).map fun r => r.report file start html tag

/-- Reports the tags that some rules are about. -/
def validator (rules : List TagRule) : Validator where
  block file b j :=
    match b with
    | .leaf h (.html raw) => (reports rules file h.span.start raw).foldl Journal.report j
    | _ => j
  inline file t j :=
    match t with
    | .leaf h (.tag raw) => (reports rules file h.span.start raw).foldl Journal.report j
    | _ => j

end TagRule

end Docmark
