import Docmark.Text.Blank

/-!
# TOML values

The values that a TOML document may hold, and tables that grow while a document is read.  A table
remembers how it came to be, because that decides what may still be written into it: a table with a
header of its own is complete, one that a longer header implies may get a header later, one made by
a dotted key takes dotted keys only, and an inline table is closed.
-/

namespace Docmark.Toml

/-- How a table came to be. -/
inductive Origin where
  /-- By a header of its own. -/
  | header
  /-- By a header of a table inside it. -/
  | implied
  /-- By a dotted key. -/
  | dotted
  /-- Between braces. -/
  | inline
deriving DecidableEq

/-- A value. -/
inductive Value where
  | string (text : Text)
  | integer (n : Int)
  | boolean (b : Bool)
  /-- A number with a fraction or an exponent, as it is written. -/
  | float (text : Text)
  /-- A date, a time or both, as it is written. -/
  | moment (text : Text)
  /-- An array; `growing` if headers in double brackets add its elements. -/
  | array (growing : Bool) (items : List Value)
  | table (origin : Origin) (entries : List (Text × Value))

/-- A table apart from the value that it is. -/
structure Table where
  origin : Origin
  entries : List (Text × Value)

namespace Table

/-- A table without entries. -/
def empty (origin : Origin) : Table := ⟨origin, []⟩

/-- The table as a value. -/
def value (t : Table) : Value := .table t.origin t.entries

/-- The value of a key. -/
def find? (t : Table) (key : Text) : Option Value := t.entries.lookup key

/-- Replaces the value of a key in its place. -/
def replace (t : Table) (key : Text) (v : Value) : Table :=
  { t with entries := t.entries.map fun e => if e.1 = key then (key, v) else e }

/-- Adds a key behind the others. -/
def add (t : Table) (key : Text) (v : Value) : Table :=
  { t with entries := t.entries ++ [(key, v)] }

/-- Edits the table that a path of keys leads to.  Tables that are missing are made; an array that
headers add to stands for its last element; an inline table cannot be entered, nor can a table with
a header of its own on the way of a dotted key. -/
def within (dotted : Bool) (edit : Table → Option Table) : List Text → Table → Option Table
  | [], t => edit t
  | key :: path, t =>
    match t.find? key with
    | none => do
      let inner ← within dotted edit path (empty (if dotted then .dotted else .implied))
      return t.add key inner.value
    | some (.table origin entries) => do
      if origin = .inline ∨ (dotted ∧ origin = .header) then none
      else
        let inner ← within dotted edit path ⟨origin, entries⟩
        return t.replace key inner.value
    | some (.array true items) =>
      match items.reverse with
      | .table origin entries :: before => do
        let inner ← within dotted edit path ⟨origin, entries⟩
        return t.replace key (.array true (before.reverse ++ [inner.value]))
      | _ => none
    | some _ => none

/-- Enters a value under a dotted key, given as the keys on the way and the last one.  The key must
be new, and only a table made by dotted keys takes more of them. -/
def enter (t : Table) (path : List Text) (key : Text) (v : Value) : Option Table :=
  within (!path.isEmpty) (fun inner =>
    if (inner.origin == .dotted) = !path.isEmpty ∧ inner.find? key = none then
      some (inner.add key v)
    else none) path t

/-- Opens the table of a header.  A table may get a header only once. -/
def openHeader (t : Table) (path : List Text) (key : Text) : Option Table :=
  within false (fun outer =>
    match outer.find? key with
    | none => some (outer.add key (empty .header).value)
    | some (.table .implied entries) => some (outer.replace key (.table .header entries))
    | some _ => none) path t

/-- Opens a new element of the array of a header in double brackets. -/
def openElement (t : Table) (path : List Text) (key : Text) : Option Table :=
  within false (fun outer =>
    match outer.find? key with
    | none => some (outer.add key (.array true [(empty .header).value]))
    | some (.array true items) =>
      some (outer.replace key (.array true (items ++ [(empty .header).value])))
    | some _ => none) path t

end Table

end Docmark.Toml
