import Docmark.Diagnostic
import Docmark.Fault
import Docmark.Token.Block

/-!
# Rewriting trees

A rewriter is offered every token of a document once and may replace or remove it.  The root comes
first; below it the walk is post-order, so that a token is offered when everything inside it has
been rewritten.  Validators look at tokens in the same order and change nothing.

A rewriter keeps a state of its own within one document; what it has to say goes into the journal,
which outlives it.
-/

namespace Docmark

/-- What is recorded while a document is built. -/
structure Journal where
  diagnostics : Diagnostics := []
  /-- What passes note down for their caller. -/
  remarks : List Text := []

namespace Journal

/-- The journal with one more diagnostic. -/
def report (j : Journal) (d : Diagnostic) : Journal :=
  { j with diagnostics := j.diagnostics ++ [d] }

/-- The journal with one more remark. -/
def remark (j : Journal) (t : Text) : Journal := { j with remarks := j.remarks ++ [t] }

end Journal

/-- A step of a rewriter: it may change the rewriter's state and add to the journal. -/
abbrev RewriteM (σ : Type) := StateM (σ × Journal)

/-- A pass over a tree with a state of its own.  Each function is told the file being processed. -/
structure Rewriter (σ : Type) where
  /-- The state at the start of a document. -/
  initial : σ
  /-- Called with the root before anything else. -/
  before : Option Path → Block → RewriteM σ Unit := fun _ _ => pure ()
  /-- The replacement of a block, or none to remove it. -/
  block : Option Path → Block → RewriteM σ (Option Block) := fun _ b => pure (some b)
  /-- The replacement of an inline, or none to remove it. -/
  inline : Option Path → Inline → RewriteM σ (Option Inline) := fun _ t => pure (some t)
  /-- Called with the finished root. -/
  after : Option Path → Block → RewriteM σ Unit := fun _ _ => pure ()

namespace Rewriter

variable {σ : Type} (w : Rewriter σ) (file : Option Path)

mutual

/-- Rewrites an inline and everything inside it. -/
def visitInline : Inline → RewriteM σ (Option Inline)
  | .leaf h content => w.inline file (.leaf h content)
  | .node h frame children => do
    let children ← visitInlines children
    w.inline file (.node h frame children)

/-- Rewrites a sequence of inlines. -/
def visitInlines : List Inline → RewriteM σ (List Inline)
  | [] => pure []
  | t :: ts => do
    let t ← visitInline t
    let ts ← visitInlines ts
    pure (t.toList ++ ts)

end

/-- Rewrites the inline sequences of a leaf. -/
def visitLeaf : Block.Leaf → RewriteM σ Block.Leaf
  | .heading depth id content => .heading depth id <$> w.visitInlines file content
  | .paragraph content => .paragraph <$> w.visitInlines file content
  | .text content => .text <$> w.visitInlines file content
  | .table align header rows => do
    let header ← header.mapM (w.visitInlines file)
    let rows ← rows.mapM (·.mapM (w.visitInlines file))
    pure (.table align header rows)
  | leaf => pure leaf

mutual

/-- Rewrites a block and everything inside it. -/
def visitBlock : Block → RewriteM σ (Option Block)
  | .leaf h content => do
    let content ← w.visitLeaf file content
    w.block file (.leaf h content)
  | .node h frame children => do
    let children ← visitBlocks children
    w.block file (.node h frame children)

/-- Rewrites a sequence of blocks. -/
def visitBlocks : List Block → RewriteM σ (List Block)
  | [] => pure []
  | b :: bs => do
    let b ← visitBlock b
    let bs ← visitBlocks bs
    pure (b.toList ++ bs)

end

/-- Rewrites everything inside a block. -/
def visitContents : Block → RewriteM σ Block
  | .leaf h content => .leaf h <$> w.visitLeaf file content
  | .node h frame children => .node h frame <$> w.visitBlocks file children

/-- Rewrites a document.  The result is missing if the rewriter removed the root. -/
def visit (root : Block) : RewriteM σ (Option Block) := do
  w.before file root
  match ← w.block file root with
  | none => pure none
  | some root =>
    let root ← w.visitContents file root
    w.after file root
    pure (some root)

end Rewriter

/-! ## Passes and chains -/

/-- A step of building a document: it may fail, and what was recorded up to then remains. -/
abbrev BuildM := ExceptT Fault (StateM Journal)

/-- A pass over the tree of a file. -/
abbrev Pass := Option Path → Block → BuildM Block

/-- The pass that a rewriter makes, starting with its initial state. -/
def Rewriter.pass {σ : Type} (w : Rewriter σ) : Pass := fun file root journal =>
  match w.visit file root (w.initial, journal) with
  | (some root, _, journal) => (.ok root, journal)
  | (none, _, journal) => (.error .rootRemoved, journal)

/-- The passes that one rewriter makes over several documents, one after the other.  Each document
has a journal of its own, and starts with the state in which the one before has left the rewriter. -/
def Rewriter.passes {σ : Type} (w : Rewriter σ) :
    σ → List (Option Path × Block × Journal) → List (Except Fault Block × Journal)
  | _, [] => []
  | s, (file, root, journal) :: docs =>
    match w.visit file root (s, journal) with
    | (some root, s, journal) => (.ok root, journal) :: w.passes s docs
    | (none, s, journal) => (.error .rootRemoved, journal) :: w.passes s docs

/-- Several passes over one document, one after the other. -/
def runPasses (passes : List Pass) : Pass := fun file root =>
  passes.foldlM (fun root pass => pass file root) root

/-! ## Validators -/

/-- A check that looks at tokens without changing them. -/
structure Validator where
  block : Option Path → Block → Journal → Journal := fun _ _ j => j
  inline : Option Path → Inline → Journal → Journal := fun _ _ j => j

/-- Some validators as one rewriter, which shows every token to each of them in turn. -/
def Validator.group (vs : List Validator) : Rewriter Unit where
  initial := ()
  block file b := do
    modify fun s => (s.1, vs.foldl (fun j v => v.block file b j) s.2)
    pure (some b)
  inline file t := do
    modify fun s => (s.1, vs.foldl (fun j v => v.inline file t j) s.2)
    pure (some t)

end Docmark
