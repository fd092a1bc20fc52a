import NestedRead.Power

/-!
# `Binary64` — finite double-precision numbers, exactly

A JSON number that is no 64-bit integer is a finite IEEE 754 binary64 value. Such a value is
kept as its sign and its **magnitude**: the 63 bits below the sign bit, read as one natural
number. The magnitude grows with the absolute value, so the order of the format is the order of
integers, and everything here is exact integer arithmetic. No floating-point operation of the
machine is involved.

`roundRatio` is the one place where rounding happens: the nearest magnitude to a quotient of
naturals, a tie going to the even one.
-/

set_option autoImplicit false

namespace NestedRead

/-- The first magnitude that is no longer finite. -/
abbrev Binary64.overflow : Nat := 2047 * pow2 52

/-- A finite binary64 number: its sign bit and the bits below it. Both zeros are values. -/
structure Binary64 where
  negative : Bool
  magnitude : Nat
  finite : magnitude < Binary64.overflow
deriving DecidableEq

namespace Binary64

/-! ## The exact value -/

/-- The integer significand of a magnitude: 52 stored bits, and the hidden one above the
subnormal range. -/
def significand (magnitude : Nat) : Nat :=
  if magnitude < pow2 52 then magnitude else pow2 52 + magnitude % pow2 52

/-- The binary exponent that belongs to `significand`. -/
def exponent (magnitude : Nat) : Int :=
  if magnitude < pow2 52 then -1074 else ((magnitude / pow2 52 : Nat) : Int) - 1075

/-- The absolute value as a quotient of naturals. -/
def ratio (magnitude : Nat) : Nat × Nat :=
  let e := exponent magnitude
  (significand magnitude * pow2 e.toNat, pow2 (-e).toNat)

/-- The value counted in the smallest positive number, `2 ^ -1074`, of which every finite value
is a whole multiple. -/
def units (x : Binary64) : Int :=
  let count : Int := (significand x.magnitude * pow2 (exponent x.magnitude + 1074).toNat : Nat)
  if x.negative then -count else count

/-- The same number, the two zeros counting as one. -/
def sameValue (x y : Binary64) : Bool :=
  x.magnitude == y.magnitude && (x.negative == y.negative || x.magnitude == 0)

/-- The place of a value in the total order of the format: negative zero comes right before
zero. -/
def key (x : Binary64) : Int :=
  if x.negative then -1 - (x.magnitude : Int) else x.magnitude

/-- The bits of the format, the sign before the magnitude. -/
def bits (x : Binary64) : UInt64 :=
  UInt64.ofNat ((if x.negative then pow2 63 else 0) + x.magnitude)

/-! ## Rounding -/

/-- The quotient to the nearest natural, a tie to the even one. -/
def divideHalfEven (num den : Nat) : Nat :=
  let low := num / den
  let twice := 2 * (num % den)
  if twice < den then low
  else if den < twice then low + 1
  else low + low % 2

/-- The integer part of the binary logarithm of a positive quotient. -/
def log2Ratio (num den : Nat) : Int :=
  let guess : Int := (num.log2 : Int) - (den.log2 : Int)
  if num * pow2 (-guess).toNat < den * pow2 guess.toNat then guess - 1 else guess

/-- The magnitude nearest to `num / den`, a tie going to the even one. The answer may be
`overflow` or above, which stands for a quotient beyond every finite value. -/
def roundRatio (num den : Nat) : Nat :=
  if num = 0 then 0
  else
    let e := max (log2Ratio num den - 52) (-1074)
    let m := divideHalfEven (num * pow2 (-e).toNat) (den * pow2 e.toNat)
    -- The hidden bit of `m` is one step of the exponent field, and so is a carry out of it.
    (e + 1074).toNat * pow2 52 + m

/-- The number with this sign and magnitude, when it is finite. -/
def ofMagnitude? (negative : Bool) (magnitude : Nat) : Option Binary64 :=
  if h : magnitude < overflow then some ⟨negative, magnitude, h⟩ else none

/-- The zero with this sign. -/
def zero (negative : Bool) : Binary64 := ⟨negative, 0, by decide⟩

/-- The place in the total order that an integer takes once it is rounded to the format. -/
def keyOfInt (n : Int) : Int :=
  if n < 0 then -1 - (roundRatio n.natAbs 1 : Int) else roundRatio n.natAbs 1

/-- The magnitude of the rounded product of two magnitudes. -/
def multiply (a b : Nat) : Nat :=
  let (an, ad) := ratio a
  let (bn, bd) := ratio b
  roundRatio (an * bn) (ad * bd)

/-- The magnitude of the rounded quotient of two magnitudes, the second not zero. -/
def divide (a b : Nat) : Nat :=
  let (an, ad) := ratio a
  let (bn, bd) := ratio b
  roundRatio (an * bd) (ad * bn)

end Binary64
end NestedRead
