import Docmark.Rewrite.LinkRebase

/-!
# Inclusion

An include directive is replaced by the content of the file that it names.  A resolver finds the
file, and the files being expanded form a chain that no file may join twice, which is what makes
expansion end.  A directive whose file is missing or already open stays as it stands in the source.
-/

namespace Docmark

/-! ## Resolvers -/

/-- What is found under a key is in the list with that key. -/
theorem mem_keys_of_lookup {α β : Type} [BEq α] [LawfulBEq α] {l : List (α × β)} {k : α} {v : β}
    (h : l.lookup k = some v) : k ∈ l.map (·.1) := by
  obtain ⟨l₁, l₂, rfl, _⟩ := List.lookup_eq_some_iff.1 h
  simp

/-- A file that was found: its content and the path under which it is known. -/
structure Resolved where
  content : Text
  path : Path

/-- Finds the files that directives name.  Every path it yields is among finitely many known
ones. -/
structure Resolver where
  /-- The file that a path names in a given file, or at the top level. -/
  resolve : Path → Option Path → Option Resolved
  /-- The paths of all files that may be found. -/
  known : List Path
  resolve_known : ∀ p file r, resolve p file = some r → r.path ∈ known

/-- Files in memory, by path in normal form. -/
abbrev MemoryFiles := List (Path × Text)

namespace MemoryFiles

/-- The files with the content of one set. -/
def insert (files : MemoryFiles) (p : Path) (content : Text) : MemoryFiles :=
  (p.normalize, content) :: files.filter fun f => f.1 ≠ p.normalize

/-- The paths that are tried for a target, in order: relative to the directory of the file with the
directive, then as it stands. -/
def candidates (p : Path) (file : Option Path) : List Path :=
  ((file.bind Path.parent?).map fun dir => (dir.join p).normalize).toList ++ [p.normalize]

/-- Finds a target among the files. -/
def resolve (files : MemoryFiles) (p : Path) (file : Option Path) : Option Resolved :=
  (candidates p file).findSome? fun c => (files.lookup c).map fun content => ⟨content, c⟩

/-- The resolver of some files in memory. -/
def resolver (files : MemoryFiles) : Resolver where
  resolve := resolve files
  known := files.map (·.1)
  resolve_known p file r h := by
    obtain ⟨c, _, hc⟩ := List.exists_of_findSome?_eq_some h
    obtain ⟨content, hl, rfl⟩ := Option.map_eq_some_iff.1 hc
    exact mem_keys_of_lookup hl

end MemoryFiles

/-! ## Chains -/

/-- The files being expanded, outermost first. -/
abbrev IncludeChain := List Path

namespace IncludeChain

/-- Whether a file is being expanded. -/
def holds (chain : IncludeChain) (p : Path) : Bool := chain.any (·.same p)

/-- The chain with one more file, unless the file is being expanded already. -/
def enter? (chain : IncludeChain) (p : Path) : Option IncludeChain :=
  if chain.holds p then none else some (chain ++ [p])

/-- The report on a file that would be expanded within itself. -/
def cycleMessage (chain : IncludeChain) (p : Path) : Text :=
  "circular reference: ".toList ++ List.intercalate " --> ".toList (chain ++ [p])

end IncludeChain

/-! ## Expanding a tree -/

/-- Builds the tree of an include target, or none if the directive has to stay. -/
abbrev Loader (m : Type → Type) := Directive → Span → m (Option (Path × Block))

/-- The blocks that an included tree contributes in the place of a block directive. -/
def includedBlocks : Block → List Block
  | .node _ .document children => children
  | b => [b]

mutual

/-- The inline sequences of headings and paragraphs in a tree, in order. -/
def Block.textInlines : Block → List (List Inline)
  | .leaf _ (.heading _ _ content) => if content.isEmpty then [] else [content]
  | .leaf _ (.paragraph content) => if content.isEmpty then [] else [content]
  | .leaf _ (.text content) => if content.isEmpty then [] else [content]
  | .leaf _ _ => []
  | .node _ _ children => Block.textInlinesAll children

/-- The inline sequences of headings and paragraphs in some trees, in order. -/
def Block.textInlinesAll : List Block → List (List Inline)
  | [] => []
  | b :: bs => b.textInlines ++ Block.textInlinesAll bs

end

/-- Some inline sequences with a blank in front of each, at the place of its first token. -/
def spaced : List (List Inline) → List Inline
  | [] => []
  | [] :: rest => spaced rest
  | (t :: ts) :: rest =>
    .leaf ⟨"include_inline", t.span⟩ (.text [' ']) :: (t :: ts) ++ spaced rest

/-- The inlines that an included tree contributes in the place of an inline directive: those of its
blocks, with a blank between one block and the next. -/
def includedInlines (root : Block) : List Inline :=
  match root.textInlines with
  | [] => []
  | first :: rest => first ++ spaced rest

section Expand

variable {m : Type → Type} [Monad m] (load : Loader m)

mutual

/-- Expands the directives in an inline token. -/
def expandInline : Inline → m Inline
  | .leaf h (.directive d) => do
    match ← load d h.span with
    | some (path, root) => return .node h (.included path) (includedInlines root)
    | none => return .leaf h (.raw d.raw)
  | .leaf h content => return .leaf h content
  | .node h frame children => return .node h frame (← expandInlines children)

/-- Expands the directives in a sequence of inline tokens. -/
def expandInlines : List Inline → m (List Inline)
  | [] => return []
  | t :: ts => do
    let t ← expandInline t
    let ts ← expandInlines ts
    return t :: ts

end

/-- Expands the directives in the inline sequences of a leaf. -/
def expandLeaf : Block.Leaf → m Block.Leaf
  | .heading depth id content => return .heading depth id (← expandInlines load content)
  | .paragraph content => return .paragraph (← expandInlines load content)
  | .text content => return .text (← expandInlines load content)
  | .table align header rows => do
    let header ← header.mapM (expandInlines load)
    let rows ← rows.mapM (·.mapM (expandInlines load))
    return .table align header rows
  | leaf => return leaf

mutual

/-- Expands the directives in a block. -/
def expandBlock : Block → m Block
  | .leaf h (.directive d) => do
    match ← load d h.span with
    | some (path, root) => return .node h (.included path) (includedBlocks root)
    | none => return .leaf h (.raw d.raw)
  | .leaf h content => return .leaf h (← expandLeaf load content)
  | .node h frame children => return .node h frame (← expandBlocks children)

/-- Expands the directives in a sequence of blocks. -/
def expandBlocks : List Block → m (List Block)
  | [] => return []
  | b :: bs => do
    let b ← expandBlock b
    let bs ← expandBlocks bs
    return b :: bs

end

end Expand

/-- Reports a problem at a place of a file. -/
def reportAt (file : Option Path) (span : Span) (kind : DiagnosticKind) (message : Text) :
    BuildM Unit :=
  modify fun j => j.report ((Diagnostic.warning kind message).at_ file span.start)

/-- Moves the links of an included tree to the directory of the including file, where both files are
known by a path. -/
def rebaseIncluded (file : Option Path) (path : Path) (root : Block) : BuildM Block :=
  match file.bind Path.parent?, path.parent? with
  | some target, some source =>
    let move := LinkRebase.between source target
    if move.isIdentity then return root else move.rewriter.pass (some path) root
  | _, _ => return root

end Docmark
