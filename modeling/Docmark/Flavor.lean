import Docmark.Rule

/-!
# Flavors

The three dialects of the language.  Each later one is the rule set of the one before it with some
rules exchanged and some added, which the rules' names make visible: the lists are written out, and
`gfmRules_eq` and `dfmRules_eq` say which edits lead from one to the next.
-/

namespace Docmark

/-- The dialects of the language. -/
inductive Flavor where
  /-- The base rules. -/
  | markdown
  /-- Strict headings, tables, deletions and bare addresses besides. -/
  | gfm
  /-- Inclusion, callouts and cross references besides. -/
  | dfm
deriving DecidableEq

/-- The rules of the base dialect. -/
def markdownRules : RuleSet where
  block := [.newline, .indentedCode, .fences, .heading "heading" .relaxed none, .underlinedHeading,
    .thematicBreak, .blockquote, .list, .html, .definition, .paragraph, .text].map .standard
  inline := [.escape, .autoLink, .tag, .link, .refLink, .shortLink, .strong, .em, .code, .lineBreak,
    .text false].map .standard

/-- The rules with tables, deletions and bare addresses. -/
def gfmRules : RuleSet where
  block := [.newline, .indentedCode, .fences, .heading "heading" .strict none, .underlinedHeading,
    .thematicBreak, .blockquote, .list, .html, .definition, .table, .paragraph, .text].map .standard
  inline := [.escape, .autoLink, .bareLink, .tag, .link, .refLink, .shortLink, .strong, .em, .code,
    .lineBreak, .del, .text true].map .standard

/-- The rules with inclusion, callouts and cross references. -/
def dfmRules : RuleSet where
  block := [.newline, .indentedCode, .fences, .directive, .heading "heading" .strict none,
    .underlinedHeading, .thematicBreak, .note, .division, .video, .blockquote, .list, .html,
    .definition, .table, .paragraph, .text].map .standard
  inline := [.escape, .directive, .angledXref, .autoLink, .bareLink, .tag, .link, .refLink,
    .shortLink, .strong, .em, .code, .lineBreak, .del, .shortXref, .text true].map .standard

/-- The second dialect is the first with strict headings, tables, bare addresses and deletions. -/
theorem gfmRules_eq :
    (do
      let rs ← markdownRules.replaceBlock "heading" (.standard (.heading "heading" .strict none))
      let rs ← rs.insertBlockBefore "paragraph" (.standard .table)
      let rs ← rs.insertInlineBefore "tag" (.standard .bareLink)
      let rs ← rs.insertInlineBefore "text" (.standard .del)
      rs.replaceInline "text" (.standard (.text true))) = .ok gfmRules := rfl

/-- The third dialect is the second with the constructs in square brackets and cross references. -/
theorem dfmRules_eq :
    (do
      let rs ← gfmRules.insertBlockBefore "heading" (.standard .directive)
      let rs ← rs.insertBlockBefore "blockquote" (.standard .note)
      let rs ← rs.insertBlockBefore "blockquote" (.standard .division)
      let rs ← rs.insertBlockBefore "blockquote" (.standard .video)
      let rs ← rs.insertInlineBefore "autolink" (.standard .directive)
      let rs ← rs.insertInlineBefore "autolink" (.standard .angledXref)
      rs.insertInlineBefore "text" (.standard .shortXref)) = .ok dfmRules := rfl

namespace Flavor

/-- The rules of a dialect. -/
def rules : Flavor → RuleSet
  | markdown => markdownRules
  | gfm => gfmRules
  | dfm => dfmRules

/-- The name of a dialect. -/
def name : Flavor → String
  | markdown => "markdown"
  | gfm => "gfm"
  | dfm => "dfm"

/-- The dialect with the given name, in any case. -/
def ofName (s : String) : Except Fault Flavor :=
  let lower := lowerAscii s.toList
  match [markdown, gfm, dfm].find? (·.name.toList = lower) with
  | some f => .ok f
  | none => .error (.unknownFlavor s)

end Flavor

end Docmark
