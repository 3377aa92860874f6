import Docmark.Glob.Basic

/-!
# Reading glob patterns

Patterns are read from left to right with a stack of the groups in braces that are still open.  A
backslash takes the special meaning from the next character.  Two asterisks stand for directories
only where they fill the whole space between slashes, the ends of the pattern, and the ends of a
branch in braces; elsewhere they are two wildcards.
-/

namespace Docmark.Glob

/-- A set of bytes in brackets. -/
structure ByteSet where
  negated : Bool
  ranges : List (Char × Char)
  /-- The characters of its notation behind the opening bracket. -/
  length : Nat

/-- What brackets turn out to be. -/
inductive Brackets where
  | set (s : ByteSet)
  /-- The closing bracket is missing. -/
  | unclosed
  /-- A range has its ends in the wrong order. -/
  | backwards

/-- Reads the ranges of a set, given those already read, the last of them first.  `first` tells that
a bracket or a hyphen would be literal; `half` that the last range waits for its end. -/
def ranges (negated first half : Bool) (read : List (Char × Char)) (count : Nat) : Text → Brackets
  | [] => .unclosed
  | c :: cs =>
    if c = ']' ∧ !first then
      let read := if half then ('-', '-') :: read else read
      .set ⟨negated, read.reverse, count + 1⟩
    else if c = '-' ∧ !first ∧ !half then ranges negated false true read (count + 1) cs
    else
      match half, read with
      | true, (low, _) :: before =>
        if c < low then .backwards
        else ranges negated false false ((low, c) :: before) (count + 1) cs
      | _, _ => ranges negated false false ((c, c) :: read) (count + 1) cs

/-- Reads what follows an opening bracket. -/
def brackets : Text → Brackets
  | '!' :: cs => ranges true true false [] 1 cs
  | '^' :: cs => ranges true true false [] 1 cs
  | cs => ranges false true false [] 0 cs

/-- A pattern being read. -/
structure Draft where
  /-- The enclosing groups, innermost first: the branches that each has finished, the last of them
  first, and the branch that the group at hand stands in, in reverse. -/
  outer : List (List (List Token) × List Token) := []
  /-- The finished branches of the group at hand, the last of them first. -/
  branches : List (List Token) := []
  /-- The branch at hand, in reverse. -/
  current : List Token := []
  /-- Whether brackets still open sets. -/
  sets : Bool := true

namespace Draft

/-- Appends a token. -/
def push (d : Draft) (t : Token) : Draft := { d with current := t :: d.current }

/-- Whether a branch takes nothing: it is empty, or holds nothing but groups without branches. -/
def takesNothing (branch : List Token) : Bool :=
  branch.all fun t =>
    match t with
    | .alternatives [] => true
    | _ => false

/-- Opens a group. -/
def openGroup (d : Draft) : Draft :=
  { d with outer := (d.branches, d.current) :: d.outer, branches := [], current := [] }

/-- Closes the group at hand, whose empty branches do not count. -/
def closeGroup? (d : Draft) : Option Draft :=
  match d.outer with
  | [] => none
  | (branches, current) :: outer =>
    let own := (d.current.reverse :: d.branches).reverse.filter (!takesNothing ·)
    some { d with outer, branches, current := .alternatives own :: current }

/-- Starts the next branch; outside of groups a comma stands for itself. -/
def comma (d : Draft) : Draft :=
  if d.outer.isEmpty then d.push (.literal ',')
  else { d with branches := d.current.reverse :: d.branches, current := [] }

/-- Puts directories in the place of the slash that was read last. -/
def dirs (d : Draft) (trailing : Bool) : Draft :=
  match d.current with
  | .leadingDirs :: _ => d
  | .trailingDirs :: _ => d
  | _ :: before =>
    { d with current := (if trailing then .trailingDirs else .innerDirs) :: before }
  | [] => d

/-- Appends two asterisks that follow the character `prev`, given what follows them.  Tells whether
the slash behind them is part of the token. -/
def twoStars (d : Draft) (prev : Option Char) (next : Text) : Draft × Bool :=
  let plain := ((d.push .many).push .many, false)
  let inGroup := !d.outer.isEmpty
  if d.current.isEmpty then
    match next with
    | [] => (d.push .leadingDirs, false)
    | c :: _ => if c = '/' then (d.push .leadingDirs, true) else plain
  else if prev ≠ some '/' ∧ !(inGroup && (prev == some ',' || prev == some '\x7b')) then plain
  else
    match next with
    | [] => (d.dirs true, false)
    | c :: _ =>
      if inGroup ∧ (c = ',' ∨ c = '\x7d') then (d.dirs true, false)
      else if c = '/' then (d.dirs false, true)
      else plain

end Draft

/-- Reads the rest of a pattern behind the character `prev`.  `lenient` tells that an opening
bracket without a closing one stands for itself, as do all after it. -/
def readFrom? (lenient : Bool) (d : Draft) (prev : Option Char) : Text → Option Draft
  | [] => some d
  | c :: cs =>
    if c = '?' then readFrom? lenient (d.push .any) (some c) cs
    else if c = '*' then
      if cs.head? = some '*' then
        let (d, slashTaken) := d.twoStars prev cs.tail
        if slashTaken then readFrom? lenient d (some '/') (cs.drop 2)
        else readFrom? lenient d (some c) (cs.drop 1)
      else readFrom? lenient (d.push .many) (some c) cs
    else if c = '[' ∧ d.sets then
      match brackets cs with
      | .set s =>
        readFrom? lenient (d.push (.oneOf s.negated s.ranges)) (some ']') (cs.drop s.length)
      | .unclosed =>
        if lenient then readFrom? lenient { d.push (.literal c) with sets := false } (some c) cs
        else none
      | .backwards => none
    else if c = '\x7b' then readFrom? lenient d.openGroup (some c) cs
    else if c = '\x7d' then
      match d.closeGroup? with
      | some d => readFrom? lenient d (some c) cs
      | none => none
    else if c = ',' then readFrom? lenient d.comma (some c) cs
    else if c = '\\' then
      match cs with
      | [] => none
      | e :: cs => readFrom? lenient (d.push (.literal e)) (some e) cs
    else readFrom? lenient (d.push (.literal c)) (some c) cs
termination_by cs => cs.length
decreasing_by
  all_goals
    simp only [List.length_cons, List.length_drop]
    omega

/-- Reads the tokens of a pattern. -/
def tokens? (lenient : Bool) (cs : Text) : Option (List Token) := do
  let d ← readFrom? lenient {} none cs
  if d.outer.isEmpty then some d.current.reverse else none

/-- Reads a pattern in which wildcards pass slashes. -/
def Pattern.parse? (cs : Text) : Option Pattern := (tokens? false cs).map (⟨·, false⟩)

end Docmark.Glob
