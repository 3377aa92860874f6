import Docmark.Text.Blank

/-!
# Scopes

What surrounds the text that is being read: whether blocks or inlines are read, how many constructs
enclose it, and named settings that switch constructs on and off.  A scope is a value; every change
yields a new one, so that a nested construct never affects its surroundings.
-/

namespace Docmark

/-- The value of a setting. -/
inductive Setting where
  | flag (on : Bool)
  | label (value : String)
deriving DecidableEq

/-- Whether blocks or inlines are read. -/
inductive Mode where
  | block
  | inline
deriving DecidableEq

/-- The settings of a scope, ascending by name. -/
abbrev Settings := List (String × Setting)

/-- Gives `key` the value `value`, in place of the one it had. -/
def Settings.insert (key : String) (value : Setting) : Settings → Settings
  | [] => [(key, value)]
  | (k, v) :: rest =>
    if key = k then (k, value) :: rest
    else if key < k then (key, value) :: (k, v) :: rest
    else (k, v) :: Settings.insert key value rest

/-- What surrounds the text that is being read. -/
structure Scope where
  mode : Mode
  /-- How many nested constructs enclose the text. -/
  depth : Nat
  settings : Settings
deriving DecidableEq

namespace Scope

/-- Set for the outermost blocks of a document. -/
def isTop : String := "IsTop"

/-- Set for the content of a block quote. -/
def isBlockQuote : String := "IsBlockQuote"

/-- Set for the content of a list item. -/
def isInList : String := "IsInList"

/-- Set for the text of a link. -/
def isInLink : String := "IsInLink"

/-- Set where inlines are read. -/
def isInline : String := "IsInline"

/-- Set for the content of an included file. -/
def isInclude : String := "IsInclude"

/-- The deepest nesting of quotes, lists and inline spans. -/
def maxNesting : Nat := 100

/-- The scope of a whole document. -/
def document : Scope := ⟨.block, 0, [(isTop, .flag true)]⟩

/-- How many further constructs may be opened inside each other. -/
def budget (s : Scope) : Nat := maxNesting - s.depth

/-- Whether one more construct may be opened. -/
def canNest (s : Scope) : Bool := decide (s.depth < maxNesting)

/-- The value of a setting. -/
def get? (s : Scope) (key : String) : Option Setting := s.settings.lookup key

/-- Whether a setting is switched on. -/
def has (s : Scope) (key : String) : Bool := s.get? key == some (.flag true)

/-- The scope with one setting changed. -/
def set (s : Scope) (key : String) (value : Setting) : Scope :=
  { s with settings := s.settings.insert key value }

/-- The scope for the inline content of a block. -/
def toInline (s : Scope) : Scope := { s.set isInline (.flag true) with mode := .inline }

/-- The scope for block content. -/
def toBlock (s : Scope) : Scope := { s.set isInline (.flag false) with mode := .block }

/-- The scope one level deeper. -/
def descend (s : Scope) : Scope := { s with depth := s.depth + 1 }

/-- The scope for the content of a block container that switches `key` on. -/
def nested (s : Scope) (key : String) : Scope :=
  ((s.set isTop (.flag false)).set key (.flag true)).descend

/-- The scope for the text of a link. -/
def insideLink (s : Scope) : Scope := (s.set isInLink (.flag true)).descend

end Scope

end Docmark
