import Docmark.Text.Line
import Docmark.Toml.Quoted
import Docmark.Toml.Value

/-!
# TOML scalars

Numbers, dates and truth values, each read from the whole of its text.  Numbers that no machine type
of 128 bits holds are refused, and so are numbers with an exponent that lie above every double.
-/

namespace Docmark.Toml

/-! ## Numbers -/

/-- Digits without the underscores between them.  An underscore stands between two digits. -/
def plainDigits? (digit : Char → Bool) (cs : Text) : Option Text :=
  let runs := splitOn '_' cs
  if runs.all fun run => !run.isEmpty && run.all digit then some runs.flatten else none

/-- Decimal digits of which the first is no zero unless it is alone. -/
def decimalDigits? (cs : Text) : Option Text :=
  if cs.head? = some '0' ∧ cs.length ≠ 1 then none else plainDigits? Char.isDigit cs

/-- The number that digits of a base write. -/
def ofDigits (base : Nat) (ds : Text) : Nat :=
  ds.foldl (fun n c => base * n + (hexDigit? c).getD 0) 0

/-- Splits off a sign; a minus is `true`. -/
def splitSign : Text → Bool × Text
  | '-' :: cs => (true, cs)
  | '+' :: cs => (false, cs)
  | cs => (false, cs)

/-- The integer that a text writes. -/
def integer? (cs : Text) : Option Int := do
  let n : Int ← match cs with
    | '0' :: 'x' :: ds =>
      (plainDigits? (fun c => (hexDigit? c).isSome) ds).map fun ds => (ofDigits 16 ds : Int)
    | '0' :: 'o' :: ds =>
      (plainDigits? (fun c => decide ('0' ≤ c ∧ c ≤ '7')) ds).map fun ds => (ofDigits 8 ds : Int)
    | '0' :: 'b' :: ds =>
      (plainDigits? (fun c => c == '0' || c == '1') ds).map fun ds => (ofDigits 2 ds : Int)
    | cs => do
      let (minus, ds) := splitSign cs
      let ds ← decimalDigits? ds
      let n : Int := ofDigits 10 ds
      return if minus then -n else n
  if -(Nat.pow 2 127 : Nat) ≤ n ∧ n < Nat.pow 2 128 then some n else none

/-- Whether `m * 10 ^ e`, written with `m`'s digits, rounds to a double. -/
def fitsDouble (digits : Text) (e : Int) : Bool :=
  let m := ofDigits 10 digits
  let size := (digits.dropWhile (· = '0')).length + e
  m = 0 ∨ size < 309 ∨ (size ≤ 310 ∧ m * Nat.pow 10 e.toNat <
    (Nat.pow 2 1024 - Nat.pow 2 970) * Nat.pow 10 (-e).toNat)

/-- Whether a text writes a number with a fraction, with an exponent, or without a finite value. -/
def isFloat (cs : Text) : Bool :=
  let (_, body) := splitSign cs
  if body = "inf".toList ∨ body = "nan".toList then true
  else
    let mantissa := body.takeWhile fun c => c ≠ 'e' ∧ c ≠ 'E'
    let exponent := (body.drop mantissa.length).drop 1
    let whole := mantissa.takeWhile (· ≠ '.')
    let fraction := (mantissa.drop whole.length).drop 1
    let hasFraction := whole.length < mantissa.length
    let hasExponent := mantissa.length < body.length
    let (minus, exponentDigits) := splitSign exponent
    match decimalDigits? whole, plainDigits? Char.isDigit fraction,
        plainDigits? Char.isDigit exponentDigits with
    | none, _, _ => false
    | some w, f, x =>
      (hasFraction || hasExponent) && (f.isSome || !hasFraction) && (x.isSome || !hasExponent) &&
        (let f := if hasFraction then f.getD [] else []
         let x : Int := if hasExponent then ofDigits 10 (x.getD []) else 0
         fitsDouble (w ++ f) ((if minus then -x else x) - (f.length : Int)))

/-! ## Dates and times -/

/-- Reads a number of exactly `n` digits that lies between two bounds. -/
def fixedNumber? (n low high : Nat) (cs : Text) : Option (Nat × Text) :=
  let ds := cs.take n
  let k := ofDigits 10 ds
  if ds.length = n ∧ ds.all Char.isDigit ∧ low ≤ k ∧ k ≤ high then some (k, cs.drop n) else none

/-- Reads one given character. -/
def symbol? (c : Char) (cs : Text) : Option Text :=
  if cs.head? = some c then some cs.tail else none

/-- The number of days in a month. -/
def daysIn (year month : Nat) : Nat :=
  if month = 2 then
    if year % 4 = 0 ∧ (year % 100 ≠ 0 ∨ year % 400 = 0) then 29 else 28
  else if month = 4 ∨ month = 6 ∨ month = 9 ∨ month = 11 then 30
  else 31

/-- What follows a date. -/
def afterDate? (cs : Text) : Option Text := do
  let (year, cs) ← fixedNumber? 4 0 9999 cs
  let cs ← symbol? '-' cs
  let (month, cs) ← fixedNumber? 2 1 12 cs
  let cs ← symbol? '-' cs
  let (_, cs) ← fixedNumber? 2 1 (daysIn year month) cs
  return cs

/-- What follows a time of day.  Seconds may be missing, and a minute may have a leap second. -/
def afterTime? (cs : Text) : Option Text := do
  let (_, cs) ← fixedNumber? 2 0 23 cs
  let cs ← symbol? ':' cs
  let (_, cs) ← fixedNumber? 2 0 59 cs
  match cs with
  | ':' :: cs =>
    let (_, cs) ← fixedNumber? 2 0 60 cs
    match cs with
    | '.' :: c :: cs => if c.isDigit then some (cs.dropWhile Char.isDigit) else none
    | cs => some cs
  | cs => some cs

/-- What follows the distance from universal time. -/
def afterOffset? (cs : Text) : Option Text := do
  match cs with
  | [] => some []
  | c :: cs =>
    if c = 'Z' ∨ c = 'z' then some cs
    else if c = '+' ∨ c = '-' then
      let (_, cs) ← fixedNumber? 2 0 23 cs
      let cs ← symbol? ':' cs
      let (_, cs) ← fixedNumber? 2 0 59 cs
      return cs
    else none

/-- Whether a text writes a date, a time of day, or both, the latter perhaps with its distance from
universal time. -/
def isMoment (cs : Text) : Bool :=
  match afterDate? cs with
  | some [] => true
  | some (sep :: rest) =>
    (sep == 'T' || sep == 't' || sep == ' ') && ((afterTime? rest).bind afterOffset?) == some []
  | none => afterTime? cs == some []

/-! ## Scalars -/

/-- The scalar that a text without quotes writes. -/
def scalar? (cs : Text) : Option Value :=
  if cs = "true".toList then some (.boolean true)
  else if cs = "false".toList then some (.boolean false)
  else match integer? cs with
    | some n => some (.integer n)
    | none =>
      if isFloat cs then some (.float cs)
      else if isMoment cs then some (.moment cs)
      else none

/-- A character of a scalar without quotes. -/
def isScalarChar (c : Char) : Bool :=
  c.isAlphanum || c == '_' || c == '+' || c == '-' || c == '.' || c == ':'

/-- Reads a scalar without quotes.  A blank may stand between a date and a time. -/
def readScalar? (cs : Text) : Option (Value × Text) := do
  let word := cs.takeWhile isScalarChar
  let rest := cs.dropWhile isScalarChar
  match afterDate? word, rest with
  | some [], ' ' :: c :: more =>
    if c.isDigit then
      let time := (c :: more).takeWhile isScalarChar
      let v ← scalar? (word ++ ' ' :: time)
      return (v, (c :: more).dropWhile isScalarChar)
    else return (← scalar? word, rest)
  | _, _ => return (← scalar? word, rest)

end Docmark.Toml
