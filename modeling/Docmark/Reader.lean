import Docmark.Rule

/-!
# Reading a document

Reading runs in two passes.  The first applies the block rules until the input is used up, and
leaves a pending block wherever inline content has to wait for link definitions further down.  The
second completes the pending blocks with the definitions of the whole document.

Nested content is read in a scope one level deeper.  `blocksAt n` and `inlinesAt n` read content
that may open `n` further levels; at level zero the rules get no reader for nested content and
decline, so that every text is read in finitely many steps.
-/

namespace Docmark

/-! ## Applying rules -/

/-- What a rule recognised: its name, its token and the characters it took. -/
structure Match (α : Type) where
  rule : String
  token : α
  length : Nat

/-- Tries rules in order, each on the same input, and takes the first that yields a token. -/
def firstMatch {ρ α : Type} (nameOf : ρ → String) (attempt : ρ → Except Fault (Attempt α)) :
    List ρ → Except Fault (Option (Match α))
  | [] => .ok none
  | r :: rs =>
    match attempt r with
    | .error e => .error e
    | .ok ⟨none, _⟩ => firstMatch nameOf attempt rs
    | .ok ⟨some token, moved⟩ => .ok (some ⟨nameOf r, token, moved⟩)

/-- The tokens that were read, and the fault that ended the reading early, if one did. -/
structure Run (α : Type) where
  tokens : List α
  fault : Option Fault

namespace Run

/-- The tokens of a run that reached its end. -/
def toExcept {α : Type} (r : Run α) : Except Fault (List α) :=
  match r.fault with
  | none => .ok r.tokens
  | some e => .error e

end Run

/-- Reads tokens until the input is used up.  A token has to take at least one character, and some
rule has to match. -/
def readAll {α : Type} (next : Cursor → Except Fault (Option (Match α))) (cur : Cursor) : Run α :=
  if _hrest : cur.rest = [] then ⟨[], none⟩
  else
    match next cur with
    | .error e => ⟨[], some e⟩
    | .ok none => ⟨[], some (.noRuleMatched cur.snippet cur.point)⟩
    | .ok (some m) =>
      if _hlen : m.length = 0 then ⟨[], some (.stalledRule m.rule cur.point)⟩
      else
        let rest := readAll next (cur.drop m.length)
        ⟨m.token :: rest.tokens, rest.fault⟩
termination_by cur.rest.length
decreasing_by
  have : 0 < cur.rest.length := List.length_pos_iff.2 _hrest
  simp only [Cursor.drop, List.length_drop]
  omega

/-! ## The two kinds of content -/

/-- One step of reading blocks. -/
def nextBlock (rules : RuleSet) (nest : Option BlockReader) (scope : Scope) (cur : Cursor) :
    Except Fault (Option (Match Block)) :=
  firstMatch BlockRule.name (BlockRule.attempt nest scope cur) rules.block

/-- Reads the blocks of a text, with everything that was read before a fault. -/
def runBlocks (rules : RuleSet) (nest : Option BlockReader) (scope : Scope) (text : Text)
    (origin : Point) : Run Block :=
  readAll (nextBlock rules nest scope) (Cursor.ofText text origin)

/-- Reads the blocks of a text that may open `n` further levels. -/
def blocksAt (rules : RuleSet) : Nat → BlockReader
  | 0, scope, text, origin => (runBlocks rules none scope text origin).toExcept
  | n + 1, scope, text, origin =>
    (runBlocks rules (some (blocksAt rules n)) scope text origin).toExcept

/-- The reader of nested blocks in a scope, if one more level may be opened. -/
def nestedBlocks (rules : RuleSet) (scope : Scope) : Option BlockReader :=
  match scope.budget with
  | 0 => none
  | n + 1 => some (blocksAt rules n)

/-- The first pass over the blocks of a text. -/
def scanBlocks (rules : RuleSet) (scope : Scope) (text : Text) (origin : Point) : Run Block :=
  runBlocks rules (nestedBlocks rules scope) scope text origin

/-- One step of reading inlines. -/
def nextInline (rules : RuleSet) (defs : Definitions) (nest : Option InlineReader) (scope : Scope)
    (cur : Cursor) : Except Fault (Option (Match Inline)) :=
  firstMatch InlineRule.name (InlineRule.attempt defs nest scope cur) rules.inline

/-- Reads the inlines of a text, given a reader of nested inlines. -/
def runInlines (rules : RuleSet) (defs : Definitions) (nest : Option InlineReader) (scope : Scope)
    (text : Text) (origin : Point) : Except Fault (List Inline) :=
  (readAll (nextInline rules defs nest scope.toInline) (Cursor.ofText text origin)).toExcept

/-- Reads the inlines of a text that may open `n` further levels. -/
def inlinesAt (rules : RuleSet) (defs : Definitions) : Nat → InlineReader
  | 0 => runInlines rules defs none
  | n + 1 => runInlines rules defs (some (inlinesAt rules defs n))

/-- Reads the inlines of a text in a scope. -/
def readInlines (rules : RuleSet) (defs : Definitions) : InlineReader := fun scope text origin =>
  inlinesAt rules defs scope.budget scope text origin

/-! ## The second pass -/

/-- Completes a pending block. -/
def Pending.complete (read : InlineReader) (rule : String) (p : Pending) :
    Except Fault Block.Leaf :=
  let cell (text : Text) := read p.scope text p.origin
  match p.form with
  | .heading depth => (cell p.source).map (.heading depth none)
  | .paragraph => (cell p.source).map .paragraph
  | .text => (cell p.source).map .text
  | .table align header rows => do
    let header ← header.mapM cell
    let rows ← rows.mapM (·.mapM cell)
    return .table align header rows
  | .unfinished => .error (.unresolvedPending rule)

mutual

/-- Completes every pending block of a tree. -/
def Block.resolve (read : InlineReader) : Block → Except Fault Block
  | .leaf h (.pending p) => (p.complete read h.rule).map (.leaf h)
  | .leaf h content => .ok (.leaf h content)
  | .node h frame children => (Block.resolveAll read children).map (.node h frame)

/-- Completes every pending block of some trees, in order. -/
def Block.resolveAll (read : InlineReader) : List Block → Except Fault (List Block)
  | [] => .ok []
  | b :: bs =>
    match b.resolve read with
    | .error e => .error e
    | .ok b => (Block.resolveAll read bs).map (b :: ·)

end

/-! ## Documents -/

/-- The root of a document: its blocks under a span of the whole text. -/
def Block.ofDocument (text : Text) (children : List Block) : Block :=
  .node ⟨"document", ⟨Point.start, Point.start.advance text⟩⟩ .document children

/-- Reads a document, given the definitions that hold already, and yields the definitions that hold
afterwards.  Those made before a fault remain. -/
def readWith (rules : RuleSet) (defs : Definitions) (scope : Scope) (text : Text) :
    Except Fault Block × Definitions :=
  let run := scanBlocks rules scope text Point.start
  let defs := defs.addBlocks run.tokens
  let root := do
    let blocks ← run.toExcept
    let blocks ← Block.resolveAll (readInlines rules defs) blocks
    return Block.ofDocument text blocks
  (root, defs)

/-- Reads a document. -/
def read (rules : RuleSet) (scope : Scope) (text : Text) : Except Fault Block :=
  (readWith rules [] scope text).1

end Docmark
