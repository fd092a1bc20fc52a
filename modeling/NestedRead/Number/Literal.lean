import NestedRead.Json.Basic

/-!
# Number literals

A literal without point and exponent is an integer where a 64-bit word holds it, but for `-0`,
which is the negative zero. Every other literal is read as binary64 in three steps, each rounded
to nearest: the leading digits that an unsigned 64-bit word holds form the significand, the
digits after them only count towards the power of ten, and the significand is then multiplied or
divided by that power. A result beyond the finite range is no number.
-/

set_option autoImplicit false

namespace NestedRead.Number

/-- The parts of a literal; the digits are those that were written. -/
structure Literal where
  negative : Bool
  whole : List Char
  fraction : Option (List Char)
  /-- The sign of the exponent, true for minus, and its digits. -/
  exponent : Option (Bool × List Char)

namespace Literal

/-- The value of a decimal digit. -/
def digit (c : Char) : Nat := c.toNat - '0'.toNat

/-- The natural number that a run of digits stands for. -/
def natural (digits : List Char) : Nat :=
  digits.foldl (fun n c => n * 10 + digit c) 0

/-! ## Reading the parts -/

/-- A run of digits, at least one, and the rest. -/
def digits? (text : List Char) : Option (List Char × List Char) :=
  match text.span Char.isDigit with
  | ([], _) => none
  | found => some found

/-- The digits before the point: a lone zero, or digits that start with another one. -/
def whole? (text : List Char) : Option (List Char × List Char) :=
  match digits? text with
  | some ('0' :: _ :: _, _) => none
  | found => found

/-- The point and the digits after it, if there is a point. -/
def fraction? (text : List Char) : Option (Option (List Char) × List Char) :=
  match text with
  | '.' :: rest => (digits? rest).map fun (found, rest) => (some found, rest)
  | _ => some (none, text)

/-- The exponent with its mark and sign, if there is one. -/
def exponent? (text : List Char) : Option (Option (Bool × List Char) × List Char) :=
  let signed : List Char → Option (Option (Bool × List Char) × List Char)
    | '-' :: rest => (digits? rest).map fun (found, rest) => (some (true, found), rest)
    | '+' :: rest => (digits? rest).map fun (found, rest) => (some (false, found), rest)
    | rest => (digits? rest).map fun (found, rest) => (some (false, found), rest)
  match text with
  | 'e' :: rest => signed rest
  | 'E' :: rest => signed rest
  | _ => some (none, text)

/-- The literal that the whole text is. -/
def ofText? (text : List Char) : Option Literal := do
  let (negative, text) := match text with
    | '-' :: rest => (true, rest)
    | _ => (false, text)
  let (whole, text) ← whole? text
  let (fraction, text) ← fraction? text
  let (exponent, text) ← exponent? text
  if text.isEmpty then some { negative, whole, fraction, exponent } else none

/-! ## The value -/

/-- As many leading digits as keep the significand within 64 bits, and the digits left over. -/
def accumulate (significand : Nat) : List Char → Nat × List Char
  | [] => (significand, [])
  | c :: cs =>
    let next := significand * 10 + digit c
    if next < wordValues then accumulate next cs else (significand, c :: cs)

/-- The magnitude of `significand * 10 ^ exponent`, rounded at each step. The largest power of
ten in the format is the 308th; further down the division is done in two steps, and below the
second a significand of 64 bits vanishes. -/
def scaled? (significand : Nat) (exponent : Int) : Option Nat :=
  let start := Binary64.roundRatio significand 1
  let power (n : Nat) := Binary64.roundRatio (pow10 n) 1
  if significand = 0 then some 0
  else if 308 < exponent then none
  else if 0 ≤ exponent then some (Binary64.multiply start (power exponent.toNat))
  else if -308 ≤ exponent then some (Binary64.divide start (power (-exponent).toNat))
  else if -616 ≤ exponent then
    some (Binary64.divide (Binary64.divide start (power 308)) (power (-exponent - 308).toNat))
  else some 0

def float? (l : Literal) : Option Binary64 := do
  let (significand, ignored) := accumulate 0 l.whole
  let fraction := l.fraction.getD []
  let (significand, unread) := accumulate significand fraction
  let shift : Int := match l.exponent with
    | none => 0
    | some (true, digits) => -(natural digits : Int)
    | some (false, digits) => natural digits
  let exponent := shift + ignored.length - (fraction.length - unread.length : Nat)
  Binary64.ofMagnitude? l.negative (← scaled? significand exponent)

/-- The number of a literal. -/
def number? (l : Literal) : Option Number :=
  let n : Int := natural l.whole
  if l.fraction.isNone && l.exponent.isNone && !(l.negative && n == 0) then
    let n := if l.negative then -n else n
    if h : Number.InRange n then some (.int n h) else l.float?.map .float
  else l.float?.map .float

end Literal
end NestedRead.Number
