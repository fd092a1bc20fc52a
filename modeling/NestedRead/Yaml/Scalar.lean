import NestedRead.Binary64
import NestedRead.Number.Literal
import NestedRead.Yaml.Token

/-!
# Plain scalars by their form

A scalar without quotes has a form: nothing, a truth value, a number or a text. Which one it is
matters only to a reader that does not know what to expect; `Form.ofText` says it.

An integer is decimal without leading zeros, or hexadecimal, octal or binary behind `0x`, `0o` or
`0b`. A number with a point or an exponent is a float as long as it is finite. Digits that start
with a zero are text.
-/

set_option autoImplicit false

namespace NestedRead.Yaml

/-- What a plain scalar looks like. -/
inductive Form where
  | null
  | bool (value : Bool)
  | integer (negative : Bool) (magnitude : Nat)
  | float
  | text
deriving DecidableEq, Repr

namespace Form

/-! ## Null and truth values -/

def isNullWord (text : String) : Bool :=
  text == "null" || text == "Null" || text == "NULL" || text == "~"

def boolOfWord? (text : String) : Option Bool :=
  if text == "true" || text == "True" || text == "TRUE" then some true
  else if text == "false" || text == "False" || text == "FALSE" then some false
  else none

/-! ## Integers -/

/-- The number that a run of digits spells, at least one and each below the radix. -/
def natural? (radix : Nat) (digits : List Char) : Option Nat := do
  if digits.isEmpty then none
  else
    let values ← digits.mapM hexValue?
    if values.all (· < radix) then some (values.foldl (fun n d => n * radix + d) 0) else none

/-- The integer that a text without a sign spells. -/
def magnitude? : List Char → Option Nat
  | '0' :: 'x' :: digits => natural? 16 digits
  | '0' :: 'o' :: digits => natural? 8 digits
  | '0' :: 'b' :: digits => natural? 2 digits
  | '0' :: _ :: _ => none
  | digits => natural? 10 digits

/-- The sign and the magnitude of an integer. -/
def integer? : List Char → Option (Bool × Nat)
  | '-' :: rest => (magnitude? rest).map (true, ·)
  | '+' :: rest => (magnitude? rest).map (false, ·)
  | rest => (magnitude? rest).map (false, ·)

/-- Whether an integer fits a number of bits, with a sign in two's complement. -/
def fits (bits : Nat) : Bool × Nat → Bool
  | (true, n) => n ≤ pow2 (bits - 1)
  | (false, n) => n < pow2 bits

/-- The unsigned 64-bit integer that a scalar is. -/
def unsigned? (text : String) : Option Nat :=
  match integer? text.toList with
  | some (false, n) => if n < wordValues then some n else none
  | _ => none

/-! ## Floats -/

/-- The digits of a decimal number and the power of ten behind them. The digits before the point
or those after it may be missing. -/
def decimal? (text : List Char) : Option (List Char × Int) := do
  let (whole, rest) := text.span Char.isDigit
  let (fraction, rest) := match rest with
    | '.' :: rest => rest.span Char.isDigit
    | _ => ([], rest)
  let (exponent, rest) ← Number.Literal.exponent? rest
  if (whole ++ fraction).isEmpty || !rest.isEmpty then none
  else
    let shift : Int := match exponent with
      | none => 0
      | some (true, digits) => -(Number.Literal.natural digits : Int)
      | some (false, digits) => Number.Literal.natural digits
    return (whole ++ fraction, shift - fraction.length)

/-- Whether the number with these digits before this power of ten rounds to a finite binary64
value. Its place among the powers of ten decides it, but for those that have 309 digits. -/
def isFinite (digits : List Char) (power : Int) : Bool :=
  let significant := digits.dropWhile (· == '0')
  let places := power + significant.length
  if significant.isEmpty || places < 309 then true
  else if 309 < places then false
  else
    let n := Number.Literal.natural significant
    Binary64.roundRatio (n * pow10 power.toNat) (pow10 (-power).toNat) < Binary64.overflow

/-- Infinity or no number at all. -/
def isSpecial (text : String) : Bool :=
  [".inf", ".Inf", ".INF", "+.inf", "+.Inf", "+.INF", "-.inf", "-.Inf", "-.INF",
    ".nan", ".NaN", ".NAN"].contains text

def isFloat (text : String) : Bool :=
  let unsigned := match text.toList with
    | '-' :: rest => rest
    | '+' :: rest => rest
    | rest => rest
  let isZeroLed := match unsigned with
    | '0' :: rest => !rest.isEmpty && rest.all Char.isDigit
    | _ => false
  isSpecial text || !isZeroLed && match decimal? unsigned with
    | some (digits, power) => isFinite digits power
    | none => false

/-! ## All forms -/

/-- The form of a plain scalar. Integers have one up to 128 bits, and are floats beyond that. -/
def ofText (text : String) : Form :=
  if text.isEmpty || isNullWord text then .null
  else match boolOfWord? text with
  | some b => .bool b
  | none =>
    match integer? text.toList with
    | some n => if fits 128 n then .integer n.1 n.2 else if isFloat text then .float else .text
    | none => if isFloat text then .float else .text

end Form
end NestedRead.Yaml
