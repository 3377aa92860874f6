import Docmark.Text.Blank

/-!
# TOML strings

The four kinds of string: between single or double quotes, on one line or between triple quotes on
several.  Backslashes escape only between double quotes.  Each reader starts behind the opening
quotes and yields the content and what follows the closing ones.
-/

namespace Docmark.Toml

/-- The value of a hexadecimal digit. -/
def hexDigit? (c : Char) : Option Nat :=
  if c.isDigit then some (c.toNat - '0'.toNat)
  else if 'a' ≤ c ∧ c ≤ 'f' then some (c.toNat - 'a'.toNat + 10)
  else if 'A' ≤ c ∧ c ≤ 'F' then some (c.toNat - 'A'.toNat + 10)
  else none

/-- The number that some hexadecimal digits write. -/
def hexNumber? (cs : Text) : Option Nat :=
  cs.foldlM (fun n c => (hexDigit? c).map (16 * n + ·)) 0

/-- The character whose code point is written by the first `n` characters. -/
def codePoint? (n : Nat) (cs : Text) : Option Char := do
  if cs.length < n then none
  else
    let code ← hexNumber? (cs.take n)
    if code.isValidChar then some (Char.ofNat code) else none

/-- The character that an escape stands for, and how many characters the escape has behind its
backslash. -/
def escape? (cs : Text) : Option (Char × Nat) :=
  match cs with
  | 'b' :: _ => some ('\x08', 1)
  | 't' :: _ => some ('\t', 1)
  | 'n' :: _ => some ('\n', 1)
  | 'f' :: _ => some ('\x0c', 1)
  | 'r' :: _ => some ('\r', 1)
  | 'e' :: _ => some ('\x1b', 1)
  | '"' :: _ => some ('"', 1)
  | '\\' :: _ => some ('\\', 1)
  | 'x' :: cs => (codePoint? 2 cs).map (·, 3)
  | 'u' :: cs => (codePoint? 4 cs).map (·, 5)
  | 'U' :: cs => (codePoint? 8 cs).map (·, 9)
  | _ => none

/-- A string and what follows it. -/
abbrev Quoted := Option (Text × Text)

/-- Puts a character in front of a string. -/
def Quoted.cons (c : Char) (q : Quoted) : Quoted :=
  q.map fun (content, rest) => (c :: content, rest)

/-- Reads a string on one line that ends at the next quote. -/
def literalString? : Text → Quoted
  | [] => none
  | c :: cs =>
    if c = '\'' then some ([], cs)
    else if c = '\n' then none
    else Quoted.cons c (literalString? cs)

/-- Reads a string on one line with escapes. -/
def basicString? : Text → Quoted
  | [] => none
  | c :: cs =>
    if c = '"' then some ([], cs)
    else if c = '\n' then none
    else if c = '\\' then
      match escape? cs with
      | some (e, n) => Quoted.cons e (basicString? (cs.drop n))
      | none => none
    else Quoted.cons c (basicString? cs)
termination_by cs => cs.length
decreasing_by
  all_goals
    simp only [List.length_cons, List.length_drop]
    omega

/-- What is left behind a line that ends in a backslash: the next line that is not blank, from its
first character that is not a blank on. -/
def joinedLine? (cs : Text) : Option Text :=
  match cs.dropWhile isPad with
  | '\n' :: rest => some (rest.dropWhile fun c => isPad c || c == '\n')
  | _ => none

theorem length_joinedLine?_le {cs rest : Text} (h : joinedLine? cs = some rest) :
    rest.length ≤ cs.length := by
  unfold joinedLine? at h
  split at h
  · rename_i r hr
    have h1 := (List.dropWhile_suffix isPad (l := cs)).length_le
    have h2 := (List.dropWhile_suffix (fun c => isPad c || c == '\n') (l := r)).length_le
    rw [hr, List.length_cons] at h1
    simp only [Option.some.injEq] at h
    subst h
    omega
  · simp at h

/-- Reads a string of several lines between triple quotes.  Of more than three quotes at its end, up
to two belong to the string. -/
def longString? (quote : Char) (escapes : Bool) : Text → Quoted
  | [] => none
  | c :: cs =>
    let more := (cs.takeWhile (· = quote)).length
    if c = quote ∧ 2 ≤ more then
      let kept := min (more - 2) 2
      some (List.replicate kept quote, cs.drop (2 + kept))
    else if escapes ∧ c = '\\' then
      match _h : joinedLine? cs with
      | some rest => longString? quote escapes rest
      | none =>
        match escape? cs with
        | some (e, n) => Quoted.cons e (longString? quote escapes (cs.drop n))
        | none => none
    else Quoted.cons c (longString? quote escapes cs)
termination_by cs => cs.length
decreasing_by
  · have := length_joinedLine?_le _h
    simp only [List.length_cons]
    omega
  all_goals
    simp only [List.length_cons, List.length_drop]
    omega

/-- Reads a string of any kind from its opening quotes on.  A line feed right behind triple quotes
does not count. -/
def string? : Text → Quoted
  | '"' :: '"' :: '"' :: cs => longString? '"' true (if cs.head? = some '\n' then cs.tail else cs)
  | '\'' :: '\'' :: '\'' :: cs =>
    longString? '\'' false (if cs.head? = some '\n' then cs.tail else cs)
  | '"' :: cs => basicString? cs
  | '\'' :: cs => literalString? cs
  | _ => none

end Docmark.Toml
