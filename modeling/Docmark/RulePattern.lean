import Docmark.Fault
import Docmark.Regex.Reading

/-!
# Rule patterns

A rule reads from the start of what is left, so its pattern is tied to the start: a pattern that
does not begin with a caret is put into a group behind one.  Groups that only set flags may stand in
front of the caret.
-/

namespace Docmark

/-- Whether a pattern begins with a caret, groups in front of it that set flags passed over.  A
group ends at its first closing parenthesis, and one with a colon in it is no such group. -/
def beginsWithCaret (cs : Text) : Bool :=
  match cs with
  | '(' :: '?' :: rest =>
    let flags := rest.takeWhile (· ≠ ')')
    if flags.contains ':' ∨ flags.length = rest.length then false
    else beginsWithCaret (rest.drop (flags.length + 1))
  | '^' :: _ => true
  | _ => false
termination_by cs.length
decreasing_by
  simp only [List.length_cons, List.length_drop]
  omega

/-- The pattern tied to the start. -/
def anchored (pattern : Text) : Text :=
  if beginsWithCaret pattern then pattern else "^(?:".toList ++ pattern ++ [')']

/-- A pattern of a rule. -/
structure RulePattern where
  /-- Its notation, tied to the start. -/
  notated : Text
  expr : Regex.Expr

/-- Reads the pattern of a rule. -/
def RulePattern.compile (rule : String) (pattern : Text) : Except Fault RulePattern :=
  match Regex.parse (anchored pattern) with
  | .ok expr => return ⟨anchored pattern, expr⟩
  | .error flaw => throw (.invalidPattern rule flaw.message)

end Docmark
