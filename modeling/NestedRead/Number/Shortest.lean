import NestedRead.Binary64

/-!
# Shortest decimal digits

A binary64 value is written with the fewest decimal digits that read back as the same value, and
among those with the ones nearest to it. The reals that round to a value form an interval around
it, whose ends belong to it exactly when the significand is even. For 1, 2, … 17 digits the two
neighbours of the value on that decimal grid are tested against the interval, in natural number
arithmetic; the first grid with a hit wins.

`Layout` holds what a format decides on top of the digits: where positional notation ends, how a
whole number is marked, and which way an exact tie between two equally short texts goes.
-/

set_option autoImplicit false

namespace NestedRead.Number

/-- Where a tie between two equally near decimals goes. -/
inductive Tie where
  | toEven
  | upward
deriving DecidableEq, Repr

/-- A positive decimal `digits * 10 ^ exponent`. -/
structure Decimal where
  digits : Nat
  exponent : Int
deriving DecidableEq, Repr

/-- How the digits of a number are laid out. -/
structure Layout where
  tie : Tie
  /-- Mark a whole number by a final `.0`. -/
  pointAlways : Bool
  /-- The decimal exponents of the leading digit that are written positionally; `none` is all. -/
  range : Option (Int × Int)

namespace Decimal

/-- The integer part of the decimal logarithm of a positive quotient. -/
def log10Ratio (num den : Nat) : Int :=
  let whole := num / den
  if 0 < whole then ((Nat.toDigits 10 whole).length : Int) - 1
  else
    let places := (Nat.toDigits 10 (den / num)).length
    if den ≤ num * pow10 (places - 1) then 1 - (places : Int) else -(places : Int)

/-- The decimal with `count` digits that rounds to the positive value of `magnitude`, if there is
one: the nearer of the two neighbours of the value on that grid. -/
def onGrid? (tie : Tie) (magnitude count : Nat) : Option Decimal :=
  let m := Binary64.significand magnitude
  let e := Binary64.exponent magnitude
  let (num, den) := Binary64.ratio magnitude
  let step : Int := log10Ratio num den - (count : Int) + 1
  -- One unit is a quarter of the gap above the value, over the grid's step.
  let unit := pow2 (e - 2).toNat * pow10 (-step).toNat
  let scale := pow2 (2 - e).toNat * pow10 step.toNat
  let value := 4 * m * unit
  -- Below a power of two the gap is half as wide, but for the least normal number.
  let low := (if m = pow2 52 ∧ -1074 < e then 4 * m - 1 else 4 * m - 2) * unit
  let high := (4 * m + 2) * unit
  let closed := m % 2 = 0
  let below := value / scale
  let above := below + 1
  let hitBelow := low < below * scale ∨ (closed ∧ low = below * scale)
  let hitAbove := above * scale < high ∨ (closed ∧ above * scale = high)
  let twice := 2 * value
  let middle := (2 * below + 1) * scale
  if hitBelow ∧ hitAbove then
    if twice < middle then some ⟨below, step⟩
    else if middle < twice then some ⟨above, step⟩
    else match tie with
      | .upward => some ⟨above, step⟩
      | .toEven => some ⟨if below % 2 = 0 then below else above, step⟩
  else if hitBelow then some ⟨below, step⟩
  else if hitAbove then some ⟨above, step⟩
  else none

/-- The shortest decimal that reads back as the positive value of `magnitude`. Seventeen digits
always do, so the search ends with a hit. -/
def shortest (tie : Tie) (magnitude : Nat) : Decimal :=
  ((List.range 17).findSome? fun n => onGrid? tie magnitude (n + 1)).getD ⟨0, 0⟩

/-- The significant digits, without zeros at the end. -/
def significant (d : Decimal) : List Char :=
  ((Nat.toDigits 10 d.digits).reverse.dropWhile (· == '0')).reverse

/-- The exponent of ten of the leading digit. -/
def leading (d : Decimal) : Int :=
  ((Nat.toDigits 10 d.digits).length : Int) - 1 + d.exponent

end Decimal

/-- Digits with the point after the digit of exponent zero, padded with zeros on either side. -/
def positional (pointAlways : Bool) (digits : List Char) (leading : Int) : String :=
  let whole :=
    if leading < 0 then ['0']
    else
      let count := leading.toNat + 1
      digits.take count ++ List.replicate (count - digits.length) '0'
  let fraction :=
    if leading < 0 then List.replicate (-leading - 1).toNat '0' ++ digits
    else digits.drop (leading.toNat + 1)
  let fraction := if fraction.isEmpty ∧ pointAlways then ['0'] else fraction
  String.ofList (if fraction.isEmpty then whole else whole ++ '.' :: fraction)

/-- Digits with the point after the first one, and the exponent with its sign. -/
def scientific (digits : List Char) (leading : Int) : String :=
  let head := digits.take 1
  let tail := digits.drop 1
  let mantissa := if tail.isEmpty then head else head ++ '.' :: tail
  String.ofList mantissa ++ (if leading < 0 then "e-" else "e+") ++ toString leading.natAbs

/-- The text of a number in the given layout. -/
def Layout.format (layout : Layout) (x : Binary64) : String :=
  let body :=
    if x.magnitude = 0 then positional layout.pointAlways ['0'] 0
    else
      let d := Decimal.shortest layout.tie x.magnitude
      let outside := match layout.range with
        | some (low, high) => d.leading < low || high < d.leading
        | none => false
      if outside then scientific d.significant d.leading
      else positional layout.pointAlways d.significant d.leading
  if x.negative then "-" ++ body else body

end NestedRead.Number
