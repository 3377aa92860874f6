import Docmark.Text.Blank

/-!
# JSON

JSON values without fractions or negative numbers, written on one line or indented.  Fields are
written in the order in which a value has them.
-/

namespace Docmark

/-- A JSON value. -/
inductive Json where
  | null
  | boolean (b : Bool)
  | number (n : Nat)
  | string (s : Text)
  | array (items : List Json)
  | object (fields : List (Text × Json))

namespace Json

/-- A value that may be missing. -/
def optional {α : Type} (f : α → Json) : Option α → Json
  | none => null
  | some x => f x

/-- An object whose fields have the given names. -/
def record (fields : List (String × Json)) : Json :=
  object (fields.map fun (name, v) => (name.toList, v))

/-- A character of a string: a quote, a backslash or a control character is escaped. -/
def escapeChar (c : Char) : Text :=
  if c = '"' then ['\\', '"']
  else if c = '\\' then ['\\', '\\']
  else if c = '\n' then ['\\', 'n']
  else if c = '\r' then ['\\', 'r']
  else if c = '\t' then ['\\', 't']
  else if c = '\x08' then ['\\', 'b']
  else if c = '\x0c' then ['\\', 'f']
  else if c < ' ' then
    ['\\', 'u', '0', '0', Nat.digitChar (c.toNat / 16), Nat.digitChar (c.toNat % 16)]
  else [c]

/-- A string between its quotes. -/
def quote (s : Text) : Text := '"' :: s.flatMap escapeChar ++ ['"']

/-- A value without parts. -/
def scalar : Json → Text
  | null => "null".toList
  | boolean b => (if b then "true" else "false").toList
  | number n => (toString n).toList
  | string s => quote s
  | _ => []

mutual

/-- The value on one line, without blanks. -/
def compact : Json → Text
  | .array items => '[' :: compactItems items ++ [']']
  | .object fields => '\x7b' :: compactFields fields ++ ['\x7d']
  | .null => scalar .null
  | .boolean b => scalar (.boolean b)
  | .number n => scalar (.number n)
  | .string s => scalar (.string s)

/-- Items with commas between them. -/
def compactItems : List Json → Text
  | [] => []
  | [v] => compact v
  | v :: vs => compact v ++ ',' :: compactItems vs

/-- Fields with commas between them. -/
def compactFields : List (Text × Json) → Text
  | [] => []
  | [(key, v)] => quote key ++ ':' :: compact v
  | (key, v) :: rest => quote key ++ ':' :: compact v ++ ',' :: compactFields rest

end

/-- A line break and the blanks in front of what stands at a depth. -/
def newLine (depth : Nat) : Text := '\n' :: List.replicate (2 * depth) ' '

mutual

/-- The value with each item and field on a line of its own, two blanks deeper than what it is
part of. -/
def pretty (depth : Nat) : Json → Text
  | .array [] => ['[', ']']
  | .array (v :: vs) =>
    '[' :: newLine (depth + 1) ++ pretty (depth + 1) v ++ prettyItems (depth + 1) vs ++
      newLine depth ++ [']']
  | .object [] => ['\x7b', '\x7d']
  | .object ((key, v) :: rest) =>
    '\x7b' :: newLine (depth + 1) ++ quote key ++ ": ".toList ++ pretty (depth + 1) v ++
      prettyFields (depth + 1) rest ++ newLine depth ++ ['\x7d']
  | .null => scalar .null
  | .boolean b => scalar (.boolean b)
  | .number n => scalar (.number n)
  | .string s => scalar (.string s)

/-- Items with a comma in front of each. -/
def prettyItems (depth : Nat) : List Json → Text
  | [] => []
  | v :: vs => ',' :: newLine depth ++ pretty depth v ++ prettyItems depth vs

/-- Fields with a comma in front of each. -/
def prettyFields (depth : Nat) : List (Text × Json) → Text
  | [] => []
  | (key, v) :: rest =>
    ',' :: newLine depth ++ quote key ++ ": ".toList ++ pretty depth v ++ prettyFields depth rest

end

end Json

end Docmark
