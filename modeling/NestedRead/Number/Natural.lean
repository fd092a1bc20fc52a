import NestedRead.Power

/-!
# Unsigned integers as text

Digits behind an optional plus sign, leading zeros included, as long as the number fits 64 bits.
The digits are read from the left, and the first thing wrong decides why a text is refused.
-/

set_option autoImplicit false

namespace NestedRead.Number

/-- Why a text is no unsigned 64-bit integer. -/
inductive NaturalFault where
  | empty
  | notADigit
  | tooLarge
deriving DecidableEq, Repr

def NaturalFault.message : NaturalFault → String
  | .empty => "cannot parse integer from empty string"
  | .notADigit => "invalid digit found in string"
  | .tooLarge => "number too large to fit in target type"

/-- The number that digits behind those of `n` spell. -/
def readDigits (n : Nat) : List Char → Except NaturalFault Nat
  | [] => .ok n
  | c :: rest =>
    if c.isDigit then
      let next := n * 10 + (c.toNat - '0'.toNat)
      if next < wordValues then readDigits next rest else .error .tooLarge
    else .error .notADigit

/-- The unsigned 64-bit integer that a text spells. -/
def readNatural (text : String) : Except NaturalFault Nat :=
  match text.toList with
  | [] => .error .empty
  | ['+'] => .error .notADigit
  | '+' :: digits => readDigits 0 digits
  | digits => readDigits 0 digits

end NestedRead.Number
