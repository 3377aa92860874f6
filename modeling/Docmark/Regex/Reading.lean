import Docmark.Regex.Basic
import Docmark.Regex.Properties

/-!
# Reading regular expressions

The notation is read from left to right with a stack of the groups that are open.  Flags hold from
where they are set to the end of the group at hand, and so each part of an expression is made under
the flags in force: what a caret or a dot means is decided while reading, and the expression itself
has no flags.
-/

namespace Docmark.Regex

/-- What is wrong with a notation. -/
inductive Flaw where
  | unclosedGroup
  | unopenedGroup
  | nothingToRepeat
  | badCount
  | badFlags
  | badGroupName
  | lookAround
  | badEscape
  | badHexEscape
  | badClass
  | unclosedClass
  | unknownProperty
  /-- A set without whole characters, which no text has. -/
  | noCharacters
  | tooLarge
deriving DecidableEq

/-- The wording of a flaw. -/
def Flaw.message : Flaw → String
  | unclosedGroup => "unclosed group"
  | unopenedGroup => "unopened group"
  | nothingToRepeat => "repetition operator missing expression"
  | badCount => "invalid repetition count"
  | badFlags => "invalid flags"
  | badGroupName => "invalid capture group name"
  | lookAround => "look-around is not supported"
  | badEscape => "unrecognized escape sequence"
  | badHexEscape => "invalid hexadecimal escape"
  | badClass => "invalid character class"
  | unclosedClass => "unclosed character class"
  | unknownProperty => "unknown Unicode property"
  | noCharacters => "pattern can match invalid UTF-8"
  | tooLarge => "the expression is too large"

/-! ## Flags -/

/-- The flags in force. -/
structure Flags where
  ignoreCase : Bool := false
  multiLine : Bool := false
  dotAll : Bool := false
  swapGreed : Bool := false
  unicode : Bool := true
  crlf : Bool := false
  /-- Whether white space and comments do not count. -/
  verbose : Bool := false
deriving DecidableEq

/-- Sets or clears the flag of a letter. -/
def Flags.assign? (f : Flags) (letter : Char) (on : Bool) : Option Flags :=
  match letter with
  | 'i' => some { f with ignoreCase := on }
  | 'm' => some { f with multiLine := on }
  | 's' => some { f with dotAll := on }
  | 'U' => some { f with swapGreed := on }
  | 'u' => some { f with unicode := on }
  | 'R' => some { f with crlf := on }
  | 'x' => some { f with verbose := on }
  | _ => none

/-- The flags that letters with at most one hyphen among them change: those behind the hyphen are
cleared.  No letter may stand twice, and the hyphen not at the end. -/
def Flags.change? (f : Flags) (on : Bool) (seen : Text) : Text → Option Flags
  | [] => if seen.head? = some '-' then none else some f
  | c :: cs =>
    if seen.contains c then none
    else if c = '-' then f.change? false (c :: seen) cs
    else do
      let f ← f.assign? c on
      f.change? on (c :: seen) cs

/-- What is left of a text behind white space and comments, if they do not count. -/
def skipFree (verbose inComment : Bool) : Text → Text
  | [] => []
  | c :: cs =>
    if !verbose then c :: cs
    else if inComment then skipFree true (c ≠ '\n') cs
    else if isSpace c then skipFree true false cs
    else if c = '#' then skipFree true true cs
    else c :: cs

/-- What is left of a text behind what does not count. -/
def Flags.skip (f : Flags) (cs : Text) : Text := skipFree f.verbose false cs

/-! ## Escapes -/

/-- The value of a hexadecimal digit. -/
def hexValue? (c : Char) : Option Nat :=
  if c.isDigit then some (c.toNat - '0'.toNat)
  else if 'a' ≤ c ∧ c ≤ 'f' then some (c.toNat - 'a'.toNat + 10)
  else if 'A' ≤ c ∧ c ≤ 'F' then some (c.toNat - 'A'.toNat + 10)
  else none

/-- The character with a code point given in hexadecimal digits. -/
def ofHex? (ds : Text) : Option Char := do
  let code ← ds.foldlM (fun n c => (hexValue? c).map (16 * n + ·)) 0
  if code.isValidChar then some (Char.ofNat code) else none

/-- Takes `n` characters that count. -/
def takeCounted (f : Flags) : Nat → Text → Except Flaw (Text × Text)
  | 0, cs => .ok ([], cs)
  | n + 1, cs =>
    match f.skip cs with
    | [] => .error .badHexEscape
    | c :: cs => do
      let (taken, rest) ← takeCounted f n cs
      return (c :: taken, rest)

/-- Takes the characters that count up to a brace, and at most `fuel` of them. -/
def takeBraced (f : Flags) (flaw : Flaw) : Nat → Text → Except Flaw (Text × Text)
  | 0, _ => .error flaw
  | fuel + 1, cs =>
    match f.skip cs with
    | [] => .error flaw
    | c :: cs =>
      if c = '\x7d' then .ok ([], cs)
      else do
        let (taken, rest) ← takeBraced f flaw fuel cs
        return (c :: taken, rest)

/-- The character that the digits of a hexadecimal escape stand for. -/
def hexChar (ds : Text) : Except Flaw Char :=
  match ds, ofHex? ds with
  | _ :: _, some c => .ok c
  | _, _ => .error .badHexEscape

/-- Reads the digits of a hexadecimal escape: a fixed number of them, or any in braces. -/
def hexEscape (f : Flags) (width : Nat) (cs : Text) : Except Flaw (Char × Text) := do
  let (ds, rest) ← match f.skip cs with
    | '\x7b' :: cs => takeBraced f .badHexEscape (cs.length + 1) cs
    | _ => takeCounted f width cs
  return (← hexChar ds, rest)

/-- The part of a text before a separator, and the part behind it. -/
def splitAtFirst? (sep : Text) : Text → Option (Text × Text)
  | [] => none
  | c :: cs =>
    if sep.isPrefixOf (c :: cs) then some ([], (c :: cs).drop sep.length)
    else (splitAtFirst? sep cs).map fun (l, r) => (c :: l, r)

/-- The set that a property, perhaps with a value, names. -/
def propertySet? (body : Text) : Option CharSet :=
  let valued (negated : Bool) (l r : Text) : Option CharSet :=
    let name := normalName l
    let value := normalName r
    if isPropertyValue name value then
      some (.negateIf negated (.property (name ++ '=' :: value)))
    else none
  match splitAtFirst? "!=".toList body, splitAtFirst? [':'] body, splitAtFirst? ['='] body with
  | some (l, r), _, _ => valued true l r
  | none, some (l, r), _ => valued false l r
  | none, none, some (l, r) => valued false l r
  | none, none, none =>
    let name := normalName body
    if isProperty name then some (.property name) else none

/-- The set that a property escape stands for, given what names it. -/
def namedProperty (f : Flags) (negated : Bool) (body : Text) : Except Flaw CharSet :=
  if !f.unicode then .error .unknownProperty
  else
    match propertySet? body with
    | some s => .ok (.negateIf negated s)
    | none => .error .unknownProperty

/-- Reads the name of a property: one letter, or any text in braces. -/
def propertyEscape (f : Flags) (negated : Bool) (cs : Text) : Except Flaw (CharSet × Text) := do
  let (body, rest) ← match f.skip cs with
    | [] => throw .badEscape
    | '\x7b' :: cs => takeBraced f .badEscape (cs.length + 1) cs
    | '\\' :: _ => throw .badEscape
    | c :: cs => pure ([c], cs)
  return (← namedProperty f negated body, rest)

/-- The decimal digits. -/
def digitSet (unicode : Bool) : CharSet :=
  if unicode then .property "nd".toList else .range '0' '9'

/-- White space. -/
def spaceSet (unicode : Bool) : CharSet :=
  if unicode then .space else .union (.range '\t' '\r') (.single ' ')

/-- The word characters. -/
def wordSet (unicode : Bool) : CharSet :=
  if unicode then .word
  else .union (.range '0' '9') (.union (.range 'A' 'Z') (.union (.single '_') (.range 'a' 'z')))

/-- What a backslash and what follows it stand for. -/
inductive Escape where
  | literal (c : Char)
  | set (s : CharSet)
  | look (l : Look)

/-- Characters with a meaning of their own, which a backslash takes away, and others that it may
stand in front of all the same. -/
def isEscapable (c : Char) : Bool :=
  decide (c.toNat < 128) && !c.isAlphanum && c != '<' && c != '>'

/-- Reads what follows `\b`: the kind of word boundary in braces, unless they hold a count. -/
def wordBoundary (f : Flags) (cs : Text) : Except Flaw (Escape × Text) :=
  let w := wordSet f.unicode
  let plain : Except Flaw (Escape × Text) := .ok (.look (.wordBoundary w), cs)
  let isKindChar (c : Char) : Bool := c.isAlpha || c == '-'
  match cs with
  | '\x7b' :: inner =>
    match f.skip inner with
    | [] => .error .badEscape
    | c :: _ =>
      if !isKindChar c then plain
      else do
        let (kind, rest) ← takeBraced f .badEscape (inner.length + 1) inner
        if kind = "start".toList then return (.look (.wordStart w), rest)
        else if kind = "end".toList then return (.look (.wordEnd w), rest)
        else if kind = "start-half".toList then return (.look (.wordStartHalf w), rest)
        else if kind = "end-half".toList then return (.look (.wordEndHalf w), rest)
        else throw .badEscape
  | _ => plain

/-- A negated class, which must not hold bytes that are no characters. -/
def negatedClass (f : Flags) (s : CharSet) (rest : Text) : Except Flaw (Escape × Text) :=
  if f.unicode then .ok (.set (.complement s), rest) else .error .noCharacters

/-- Reads what follows a backslash.  Two hexadecimal digits stand for a byte where characters are
not in force, and a byte above ASCII is no character. -/
def escape (f : Flags) : Text → Except Flaw (Escape × Text)
  | [] => .error .badEscape
  | c :: cs =>
    let u := f.unicode
    match c with
    | 'x' => do
      let (d, rest) ← hexEscape f 2 cs
      if !u && decide (128 ≤ d.toNat) && (f.skip cs).head? != some '\x7b' then throw .noCharacters
      return (.literal d, rest)
    | 'u' => do let (d, rest) ← hexEscape f 4 cs; return (.literal d, rest)
    | 'U' => do let (d, rest) ← hexEscape f 8 cs; return (.literal d, rest)
    | 'p' => do let (s, rest) ← propertyEscape f false cs; return (.set s, rest)
    | 'P' => do let (s, rest) ← propertyEscape f true cs; return (.set s, rest)
    | 'd' => .ok (.set (digitSet u), cs)
    | 's' => .ok (.set (spaceSet u), cs)
    | 'w' => .ok (.set (wordSet u), cs)
    | 'D' => negatedClass f (digitSet u) cs
    | 'S' => negatedClass f (spaceSet u) cs
    | 'W' => negatedClass f (wordSet u) cs
    | 'a' => .ok (.literal '\x07', cs)
    | 'f' => .ok (.literal '\x0c', cs)
    | 't' => .ok (.literal '\t', cs)
    | 'n' => .ok (.literal '\n', cs)
    | 'r' => .ok (.literal '\r', cs)
    | 'v' => .ok (.literal '\x0b', cs)
    | 'A' => .ok (.look .textStart, cs)
    | 'z' => .ok (.look .textEnd, cs)
    | 'b' => wordBoundary f cs
    | 'B' => .ok (.look (.notWordBoundary (wordSet u)), cs)
    | '<' => .ok (.look (.wordStart (wordSet u)), cs)
    | '>' => .ok (.look (.wordEnd (wordSet u)), cs)
    | c => if isEscapable c then .ok (.literal c, cs) else .error .badEscape

/-! ## Character classes -/

/-- The set of one character under flags. -/
def Flags.single (f : Flags) (c : Char) : CharSet :=
  if f.ignoreCase then .anyCase (.single c) else .single c

/-- An ASCII class by its name between colons. -/
def namedClass? (name : Text) : Option CharSet :=
  let digit := CharSet.range '0' '9'
  let lower := CharSet.range 'a' 'z'
  let upper := CharSet.range 'A' 'Z'
  let alpha := CharSet.union lower upper
  let alnum := CharSet.union digit alpha
  match String.ofList name with
  | "alnum" => some alnum
  | "alpha" => some alpha
  | "ascii" => some (.range '\x00' '\x7f')
  | "blank" => some (.union (.single '\t') (.single ' '))
  | "cntrl" => some (.union (.range '\x00' '\x1f') (.single '\x7f'))
  | "digit" => some digit
  | "graph" => some (.range '!' '~')
  | "lower" => some lower
  | "print" => some (.range ' ' '~')
  | "punct" => some (.diff (.range '!' '~') alnum)
  | "space" => some (.union (.range '\t' '\r') (.single ' '))
  | "upper" => some upper
  | "word" => some (.union alnum (.single '_'))
  | "xdigit" => some (.union digit (.union (.range 'a' 'f') (.range 'A' 'F')))
  | _ => none

/-- Reads the name of an ASCII class and what closes it: the class, and what follows it. -/
def closedClass? (cs : Text) : Option (CharSet × Text) :=
  let name := cs.takeWhile (· ≠ ':')
  match cs.drop name.length with
  | ':' :: ']' :: rest => (namedClass? name).map (·, rest)
  | _ => none

/-- Reads an ASCII class from its opening bracket on, if there is one: whether it is negated, the
class before that, and what follows it. -/
def namedClassAt? (cs : Text) : Option (Bool × CharSet × Text) :=
  match cs with
  | '[' :: ':' :: '^' :: cs => (closedClass? cs).map (true, ·)
  | '[' :: ':' :: cs => (closedClass? cs).map (false, ·)
  | _ => none

/-- How two sets are joined in brackets. -/
inductive SetOp where
  | inter
  | diff
  | symmDiff

/-- The set that an operator makes of two. -/
def SetOp.apply : SetOp → CharSet → CharSet → CharSet
  | inter => .inter
  | diff => .diff
  | symmDiff => .symmDiff

/-- A class that is open. -/
structure OpenClass where
  negated : Bool
  /-- What stands in front of the last operator, and the operator. -/
  left : Option (CharSet × SetOp) := none
  /-- The union of what has been read since. -/
  items : CharSet := .none

namespace OpenClass

/-- Adds a set. -/
def add (o : OpenClass) (s : CharSet) : OpenClass := { o with items := .union o.items s }

/-- The set that has been read, without the negation. -/
def joined (o : OpenClass) : CharSet :=
  match o.left with
  | none => o.items
  | some (s, op) => op.apply s o.items

/-- Continues behind an operator. -/
def operator (o : OpenClass) (op : SetOp) : OpenClass :=
  { o with left := some (o.joined, op), items := .none }

/-- The set of the closed class. -/
def close (o : OpenClass) : CharSet := .negateIf o.negated o.joined

end OpenClass

/-- Adds the hyphens at the start of a class, which are literal. -/
def leadingHyphens (f : Flags) (o : OpenClass) : Nat → Text → Except Flaw (OpenClass × Bool × Text)
  | 0, _ => .error .unclosedClass
  | fuel + 1, cs =>
    match f.skip cs with
    | [] => .error .unclosedClass
    | '-' :: cs => do
      let (o, _, rest) ← leadingHyphens f (o.add (f.single '-')) fuel cs
      return (o, true, rest)
    | cs => .ok (o, false, cs)

/-- Adds a closing bracket at the start of a class, which is literal. -/
def leadingBracket (f : Flags) (o : OpenClass) (cs : Text) : Except Flaw (OpenClass × Text) :=
  match cs with
  | ']' :: rest =>
    if (f.skip rest).isEmpty then .error .unclosedClass
    else .ok (o.add (f.single ']'), rest)
  | cs => .ok (o, cs)

/-- Reads the start of a class, behind its opening bracket. -/
def openClass (f : Flags) (cs : Text) : Except Flaw (OpenClass × Text) :=
  match f.skip cs with
  | [] => .error .unclosedClass
  | c :: cs => do
    let (o, hyphens, cs) ← leadingHyphens f ⟨c = '^', none, .none⟩ (cs.length + 2)
      (if c = '^' then cs else c :: cs)
    if hyphens then return (o, cs) else leadingBracket f o cs

/-- Reads a character or an escape of a class. -/
def anyItem (f : Flags) : Text → Except Flaw (Escape × Text)
  | [] => .error .unclosedClass
  | '\\' :: cs => escape f cs
  | c :: cs => .ok (.literal c, cs)

/-- Reads one item of a class.  Where characters are not in force, a class holds bytes, and a
literal must be one. -/
def classItem (f : Flags) (cs : Text) : Except Flaw (Escape × Text) := do
  let (item, rest) ← anyItem f cs
  match item with
  | .literal c =>
    if f.unicode || decide (c.toNat < 128) then return (item, rest) else throw .noCharacters
  | item => return (item, rest)

/-- The set that one item of a class stands for. -/
def itemSet (f : Flags) (item : Escape) : Except Flaw CharSet :=
  match item with
  | .literal c => .ok (f.single c)
  | .set s => .ok s
  | .look _ => .error .badClass

/-- The set of the characters from one item of a class to another. -/
def rangeSet (f : Flags) (low high : Escape) : Except Flaw CharSet :=
  match low, high with
  | .literal c, .literal d =>
    if d < c then .error .badClass
    else .ok (if f.ignoreCase then .anyCase (.range c d) else .range c d)
  | _, _ => .error .badClass

/-- Reads an item of a class, or two with a hyphen between them as a range. -/
def classRange (f : Flags) (cs : Text) : Except Flaw (CharSet × Text) := do
  let (low, rest) ← classItem f cs
  let one : Except Flaw (CharSet × Text) := do return (← itemSet f low, rest)
  match f.skip rest with
  | [] => throw .unclosedClass
  | '-' :: more =>
    match f.skip more with
    | [] => throw .unclosedClass
    | ']' :: _ => one
    | '-' :: _ => one
    | more => do
      let (high, rest) ← classItem f more
      return (← rangeSet f low high, rest)
  | _ => one

/-- Reads a class in which the classes `outer` are open, innermost first, with at most `fuel`
steps. -/
def readClass (f : Flags) : Nat → OpenClass → List OpenClass → Text → Except Flaw (CharSet × Text)
  | 0, _, _, _ => .error .unclosedClass
  | fuel + 1, o, outer, cs =>
    match f.skip cs with
    | [] => .error .unclosedClass
    | '[' :: rest =>
      match namedClassAt? ('[' :: rest) with
      | some (negated, s, rest) =>
        if negated && !f.unicode then .error .noCharacters
        else readClass f fuel (o.add (.negateIf negated s)) outer rest
      | none => do
        let (inner, rest) ← openClass f rest
        readClass f fuel inner (o :: outer) rest
    | ']' :: rest =>
      if o.negated && !f.unicode then .error .noCharacters
      else
        match outer with
        | [] => .ok (o.close, rest)
        | o' :: outer => readClass f fuel (o'.add o.close) outer rest
    | '&' :: '&' :: rest => readClass f fuel (o.operator .inter) outer rest
    | '-' :: '-' :: rest => readClass f fuel (o.operator .diff) outer rest
    | '~' :: '~' :: rest => readClass f fuel (o.operator .symmDiff) outer rest
    | cs => do
      let (s, rest) ← classRange f cs
      readClass f fuel (o.add s) outer rest

/-- Reads a class behind its opening bracket. -/
def bracketClass (f : Flags) (cs : Text) : Except Flaw (CharSet × Text) := do
  let (o, rest) ← openClass f cs
  readClass f (rest.length + 1) o [] rest

/-! ## Repetition -/

/-- Reads a decimal number with white space around it. -/
def count? (f : Flags) (cs : Text) : Except Flaw (Option Nat × Text) :=
  let cs := cs.dropWhile isSpace
  let rec digits : Text → Text × Text
    | [] => ([], [])
    | c :: cs =>
      if c.isDigit then
        let (ds, rest) := digits cs
        (c :: ds, rest)
      else if f.verbose && isSpace c then digits cs
      else ([], c :: cs)
  let (ds, rest) := digits cs
  let rest := f.skip (rest.dropWhile isSpace)
  if ds.isEmpty then .ok (none, rest)
  else
    let n := ds.foldl (fun n c => 10 * n + (c.toNat - '0'.toNat)) 0
    if n < Nat.pow 2 32 then .ok (some n, rest) else .error .badCount

/-- Reads the brace behind counts, if there are any and they are in order. -/
def closeCounts (range : Option (Nat × Option Nat)) (cs : Text) :
    Except Flaw ((Nat × Option Nat) × Text) :=
  match range, cs with
  | some (low, high), '\x7d' :: rest =>
    if high.any (· < low) then .error .badCount else .ok ((low, high), rest)
  | _, _ => .error .badCount

/-- Reads counts behind their opening brace. -/
def counts (f : Flags) (cs : Text) : Except Flaw ((Nat × Option Nat) × Text) := do
  let (low, cs) ← count? f (f.skip cs)
  match cs with
  | ',' :: cs =>
    match f.skip cs with
    | '\x7d' :: cs => closeCounts (low.map (·, none)) ('\x7d' :: cs)
    | cs => do
      let (high, cs) ← count? f cs
      closeCounts (low.bind fun low => high.map fun high => (low, some high)) cs
  | cs => closeCounts (low.map fun low => (low, some low)) cs

/-! ## Expressions -/

/-- A group that is open around the one at hand. -/
structure OpenGroup where
  /-- The flags to return to. -/
  flags : Flags
  branches : List Expr
  items : List (Option Expr)

/-- An expression being read.  The last item comes first; an item without an expression is a change
of flags. -/
structure Draft where
  flags : Flags := {}
  /-- The finished branches of the group at hand, the last one first. -/
  branches : List Expr := []
  items : List (Option Expr) := []
  /-- The groups around, innermost first. -/
  outer : List OpenGroup := []
  /-- The names of groups. -/
  names : List Text := []

namespace Draft

/-- Appends an expression. -/
def push (d : Draft) (e : Expr) : Draft := { d with items := some e :: d.items }

/-- The branch at hand. -/
def branch (d : Draft) : Expr := .ofList (d.items.reverse.filterMap id)

/-- What the group at hand holds. -/
def content (d : Draft) : Expr := .oneOfList (d.branches.reverse ++ [d.branch])

/-- Starts the next branch. -/
def nextBranch (d : Draft) : Draft := { d with branches := d.branch :: d.branches, items := [] }

/-- Opens a group with flags. -/
def openGroup (d : Draft) (flags : Flags) : Draft :=
  { d with
    flags, branches := [], items := []
    outer := ⟨d.flags, d.branches, d.items⟩ :: d.outer }

/-- Closes the group at hand. -/
def closeGroup (d : Draft) : Except Flaw Draft :=
  match d.outer with
  | [] => .error .unopenedGroup
  | g :: outer =>
    .ok { d with
      flags := g.flags, branches := g.branches, items := some (.group d.content) :: g.items, outer }

/-- Repeats the last item. -/
def repeatLast (d : Draft) (low : Nat) (high : Option Nat) (lazy : Bool) : Except Flaw Draft :=
  match d.items with
  | some e :: before =>
    .ok { d with items := some (.repeated low high (lazy == d.flags.swapGreed) e) :: before }
  | _ => .error .nothingToRepeat

end Draft

/-- Splits off a question mark. -/
def splitLazy (cs : Text) : Bool × Text :=
  match cs with
  | '?' :: cs => (true, cs)
  | cs => (false, cs)

/-- A character of a group name; the first one is a letter or an underscore. -/
def isNameChar (first : Bool) (c : Char) : Bool :=
  if first then c == '_' || isAlphabetic c
  else c == '_' || c == '.' || c == '[' || c == ']' || isAlphanumeric c

/-- Reads the name of a group up to its angle bracket. -/
def groupName (d : Draft) (cs : Text) : Except Flaw (Text × Text) :=
  let name := cs.takeWhile (· ≠ '>')
  match name, cs.drop name.length with
  | c :: more, '>' :: rest =>
    if isNameChar true c ∧ more.all (isNameChar false) ∧ !d.names.contains name then
      .ok (name, rest)
    else .error .badGroupName
  | _, _ => .error .badGroupName

/-- Sets flags behind a question mark, for a group that it opens or for the rest of the group at
hand. -/
def setFlags (d : Draft) (cs : Text) : Except Flaw (Draft × Text) :=
  let letters := cs.takeWhile fun c => c ≠ ':' ∧ c ≠ ')'
  match cs.drop letters.length with
  | ':' :: rest =>
    match d.flags.change? true [] letters with
    | some flags => .ok (d.openGroup flags, rest)
    | none => .error .badFlags
  | ')' :: rest =>
    if letters.isEmpty then .error .nothingToRepeat
    else
      match d.flags.change? true [] letters with
      | some flags => .ok ({ d with flags, items := none :: d.items }, rest)
      | none => .error .badFlags
  | _ => .error .badFlags

/-- Opens a named group. -/
def openNamed (d : Draft) (cs : Text) : Except Flaw (Draft × Text) := do
  let (name, rest) ← groupName d cs
  return ({ d with names := name :: d.names }.openGroup d.flags, rest)

/-- Opens a group with a question mark behind its parenthesis, or sets flags. -/
def openMarked (d : Draft) (cs : Text) : Except Flaw (Draft × Text) :=
  match cs with
  | '=' :: _ => .error .lookAround
  | '!' :: _ => .error .lookAround
  | '<' :: '=' :: _ => .error .lookAround
  | '<' :: '!' :: _ => .error .lookAround
  | 'P' :: '<' :: cs => openNamed d cs
  | '<' :: cs => openNamed d cs
  | cs => setFlags d cs

/-- Opens a group, behind its parenthesis; or sets flags. -/
def openAt (d : Draft) (cs : Text) : Except Flaw (Draft × Text) :=
  match d.flags.skip cs with
  | '?' :: cs => openMarked d cs
  | cs => .ok (d.openGroup d.flags, cs)

/-- What a dot stands for. -/
def dot (f : Flags) : CharSet :=
  let any := CharSet.range '\x00' (Char.ofNat 0x10FFFF)
  if f.dotAll then any
  else
    let any := CharSet.diff any (.single '\n')
    if f.crlf then .diff any (.single '\r') else any

/-- Reads one part of an expression that starts with the given character. -/
def readPart (d : Draft) (c : Char) (cs : Text) : Except Flaw (Draft × Text) :=
  let f := d.flags
  match c with
  | '(' => openAt d cs
  | ')' => do return (← d.closeGroup, cs)
  | '|' => .ok (d.nextBranch, cs)
  | '[' => do
    let (s, rest) ← bracketClass f cs
    return (d.push (.oneOf s), rest)
  | '?' => do
    let (lazy, rest) := splitLazy cs
    return (← d.repeatLast 0 (some 1) lazy, rest)
  | '*' => do
    let (lazy, rest) := splitLazy cs
    return (← d.repeatLast 0 none lazy, rest)
  | '+' => do
    let (lazy, rest) := splitLazy cs
    return (← d.repeatLast 1 none lazy, rest)
  | '\x7b' => do
    if !(d.items.head?.any Option.isSome) then throw .nothingToRepeat
    let ((low, high), rest) ← counts f cs
    let (lazy, rest) := splitLazy (f.skip rest)
    return (← d.repeatLast low high lazy, rest)
  | '\\' => do
    let (e, rest) ← escape f cs
    match e with
    | .literal c => return (d.push (.oneOf (f.single c)), rest)
    | .set s => return (d.push (.oneOf s), rest)
    | .look l => return (d.push (.look l), rest)
  | '.' => if f.unicode then .ok (d.push (.oneOf (dot f)), cs) else .error .noCharacters
  | '^' => .ok (d.push (.look (if f.multiLine then .lineStart f.crlf else .textStart)), cs)
  | '$' => .ok (d.push (.look (if f.multiLine then .lineEnd f.crlf else .textEnd)), cs)
  | c => .ok (d.push (.oneOf (f.single c)), cs)

/-- Reads an expression part by part, at most `fuel` of them. -/
def readParts : Nat → Draft → Text → Except Flaw Draft
  | 0, d, _ => .ok d
  | fuel + 1, d, cs =>
    match d.flags.skip cs with
    | [] => .ok d
    | c :: cs => do
      let (d, rest) ← readPart d c cs
      readParts fuel d rest

/-- How many parts a set of characters has.  Sets that characters above ASCII belong to for a
property of theirs have many. -/
def CharSet.size : CharSet → Nat
  | .range _ _ => 1
  | .property _ => 700
  | .space => 20
  | .word => 1500
  | .none => 1
  | .complement s => s.size
  | .union s t => s.size + t.size
  | .inter s t => s.size + t.size
  | .anyCase s => s.size

/-- How many parts an expression has when its counts are written out. -/
def Expr.unfoldedSize : Expr → Nat
  | .empty => 1
  | .look _ => 1
  | .oneOf s => s.size
  | .seq e f => e.unfoldedSize + f.unfoldedSize
  | .alt e f => e.unfoldedSize + f.unfoldedSize
  | .repeated low high _ e => e.unfoldedSize * max 1 (high.getD low)
  | .group e => e.unfoldedSize

/-- How many parts an expression may have when its counts are written out. -/
def maxSize : Nat := 300000

/-- Reads an expression. -/
def parse (cs : Text) : Except Flaw Expr := do
  let d ← readParts cs.length {} cs
  if !d.outer.isEmpty then throw .unclosedGroup
  let e := d.content
  if maxSize < e.unfoldedSize then throw .tooLarge
  return e

end Docmark.Regex
