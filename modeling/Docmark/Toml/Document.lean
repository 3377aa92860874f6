import Docmark.Toml.Scalar

/-!
# TOML documents

A document is a list of statements, each a header or an entry, and its table is what they build in
order.  Reading and building are apart: `statements?` accepts the notation, `Table.run` the order of
the definitions.
-/

namespace Docmark.Toml

/-! ## Values -/

/-- How deep arrays and inline tables may be nested. -/
def maxDepth : Nat := 80

/-- The text without the blanks, line feeds and comments at its start; `inComment` if it starts in a
comment. -/
def skipBlanks (inComment : Bool) : Text → Text
  | [] => []
  | c :: cs =>
    if c = '\n' then skipBlanks false cs
    else if inComment then skipBlanks true cs
    else if isPad c then skipBlanks false cs
    else if c = '#' then skipBlanks true cs
    else c :: cs

/-- A key with its dots, as the keys on the way and the last one. -/
structure Key where
  path : List Text
  last : Text

/-- A character of a key without quotes. -/
def isKeyChar (c : Char) : Bool := c.isAlphanum || c == '_' || c == '-'

/-- Reads a key without dots. -/
def simpleKey? (cs : Text) : Option (Text × Text) :=
  match cs with
  | '"' :: rest => basicString? rest
  | '\'' :: rest => literalString? rest
  | _ =>
    let word := cs.takeWhile isKeyChar
    if word.isEmpty then none else some (word, cs.dropWhile isKeyChar)

/-- Reads a key with at most `fuel` dots. -/
def readKey? : Nat → Text → Option (Key × Text)
  | 0, _ => none
  | fuel + 1, cs => do
    let (word, rest) ← simpleKey? cs
    let rest := rest.dropWhile isPad
    match rest with
    | '.' :: rest =>
      let (key, rest) ← readKey? fuel (rest.dropWhile isPad)
      return ({ key with path := word :: key.path }, rest)
    | rest => return (⟨[], word⟩, rest)

/-- Reads a key. -/
def key? (cs : Text) : Option (Key × Text) := readKey? (cs.length + 1) cs

/-- Reads items with commas between them, and perhaps one behind the last, up to a closing
bracket. -/
def items? {α : Type} (item? : Text → Option (α × Text)) (close : Char) :
    Nat → Text → Option (List α × Text)
  | 0, _ => none
  | fuel + 1, cs =>
    match skipBlanks false cs with
    | [] => none
    | c :: cs =>
      if c = close then some ([], cs)
      else do
        let (x, rest) ← item? (c :: cs)
        match skipBlanks false rest with
        | [] => none
        | d :: rest =>
          if d = ',' then
            let (xs, rest) ← items? item? close fuel rest
            return (x :: xs, rest)
          else if d = close then return ([x], rest)
          else none

/-- Reads an entry of a table, given how its value is read.  Between a key and its value there is no
line break. -/
def assignment? (value? : Text → Option (Value × Text)) (cs : Text) :
    Option ((Key × Value) × Text) := do
  let (key, rest) ← key? cs
  let rest ← symbol? '=' rest
  let (v, rest) ← value? (rest.dropWhile isPad)
  return ((key, v), rest)

/-- The inline table with the given entries. -/
def inlineTable? (entries : List (Key × Value)) : Option Table :=
  entries.foldlM (fun t (key, v) => t.enter key.path key.last v) (Table.empty .inline)

/-- Reads a value in which brackets are nested at most `depth` deep. -/
def readValue? : Nat → Text → Option (Value × Text)
  | depth, cs =>
    match cs with
    | [] => none
    | c :: rest =>
      if c = '"' ∨ c = '\'' then (string? cs).map fun (s, rest) => (.string s, rest)
      else if c = '[' then
        match depth with
        | 0 => none
        | depth + 1 => do
          let (items, rest) ← items? (readValue? depth) ']' cs.length rest
          return (.array false items, rest)
      else if c = '{' then
        match depth with
        | 0 => none
        | depth + 1 => do
          let (entries, rest) ← items? (assignment? (readValue? depth)) '}' cs.length rest
          let t ← inlineTable? entries
          return (t.value, rest)
      else readScalar? cs

/-! ## Statements -/

/-- A statement of a document. -/
inductive Statement where
  /-- The header of a table. -/
  | header (key : Key)
  /-- The header of an element of an array. -/
  | element (key : Key)
  | entry (key : Key) (v : Value)

/-- Reads a statement. -/
def statement? : Text → Option (Statement × Text)
  | '[' :: '[' :: cs => do
    let (key, rest) ← key? (cs.dropWhile isPad)
    let rest ← symbol? ']' rest
    let rest ← symbol? ']' rest
    return (.element key, rest)
  | '[' :: cs => do
    let (key, rest) ← key? (cs.dropWhile isPad)
    let rest ← symbol? ']' rest
    return (.header key, rest)
  | cs => do
    let ((key, v), rest) ← assignment? (readValue? maxDepth) cs
    return (.entry key v, rest)

/-- Whether nothing but a comment is left of a line. -/
def endsLine (cs : Text) : Bool :=
  match cs.dropWhile isPad with
  | [] => true
  | c :: _ => c == '\n' || c == '#'

/-- Reads at most `fuel` statements, each on lines of its own. -/
def statements? : Nat → Text → Option (List Statement)
  | 0, _ => none
  | fuel + 1, cs =>
    match skipBlanks false cs with
    | [] => some []
    | c :: cs => do
      let (s, rest) ← statement? (c :: cs)
      if endsLine rest then return s :: (← statements? fuel rest) else none

/-! ## The table of a document -/

/-- Runs statements on the table of a document, in which the entries belong to the table that `here`
leads to. -/
def Table.run (root : Table) (here : List Text) : List Statement → Option Table
  | [] => some root
  | .header key :: rest => do
    let root ← root.openHeader key.path key.last
    root.run (key.path ++ [key.last]) rest
  | .element key :: rest => do
    let root ← root.openElement key.path key.last
    root.run (key.path ++ [key.last]) rest
  | .entry key v :: rest => do
    let root ← root.within false (fun t => t.enter key.path key.last v) here
    root.run here rest

/-- The text with line feeds as its only line breaks and no other control character but tabs, if it
can be written so. -/
def plainLines? : Text → Option Text
  | [] => some []
  | '\r' :: '\n' :: cs => (plainLines? cs).map ('\n' :: ·)
  | c :: cs =>
    if c = '\n' ∨ c = '\t' ∨ (' ' ≤ c ∧ c ≠ '\x7f') then (plainLines? cs).map (c :: ·) else none

/-- The table of a document.  A byte order mark at its start does not count. -/
def document? (cs : Text) : Option Table := do
  let cs ← plainLines? (if cs.head? = some '\ufeff' then cs.tail else cs)
  let statements ← statements? (cs.length + 1) cs
  (Table.empty .header).run [] statements

end Docmark.Toml
