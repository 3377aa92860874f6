import Docmark.Path
import Docmark.Rewrite.Basic

/-!
# Rebasing links

The links of an included file are relative to that file.  Rebasing rewrites them so that they lead
to the same places from the directory of the including file.
-/

namespace Docmark

/-- Whether a link target is a path relative to its file: no fragment, query or absolute path, and
no scheme in front. -/
def isRelativeTarget (target : Text) : Bool :=
  match target with
  | [] => false
  | c :: _ =>
    !("#/\\?~".toList.contains c) &&
      !((target.takeWhile fun d => !"/?#".toList.contains d).contains ':')

/-- The move of links from one directory to another, both in normal form. -/
structure LinkRebase where
  source : Path
  target : Path

namespace LinkRebase

/-- The move from the directory of an included file to that of the including one. -/
def between (source target : Path) : LinkRebase := ⟨source.normalize, target.normalize⟩

/-- Whether links stay as they are. -/
def isIdentity (r : LinkRebase) : Bool := r.source.same r.target

/-- The new form of a relative target; its query and fragment are kept.  Other targets have none. -/
def rebase? (r : LinkRebase) (target : Text) : Option Text :=
  if isRelativeTarget target then
    let path := target.takeWhile fun c => c ≠ '?' && c ≠ '#'
    let suffix := target.drop path.length
    ((r.source.join path).normalize.relativeTo? r.target).map fun p => p.slashed ++ suffix
  else none

/-- The new form of a target, or the target itself. -/
def apply (r : LinkRebase) (target : Text) : Text := (r.rebase? target).getD target

/-- Rewrites the targets of links and images. -/
def rewriter (r : LinkRebase) : Rewriter Unit where
  initial := ()
  inline _ t :=
    match t with
    | .node h (.link href title) children =>
      pure (some (.node h (.link (r.apply href) title) children))
    | .leaf h (.image src title alt) => pure (some (.leaf h (.image (r.apply src) title alt)))
    | t => pure (some t)

end LinkRebase

end Docmark
