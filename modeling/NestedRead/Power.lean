/-!
# Powers of two and of ten

The units in which numbers are scaled, as functions of natural numbers.
-/

set_option autoImplicit false

namespace NestedRead

/-- A power of two. -/
abbrev pow2 (n : Nat) : Nat := Nat.pow 2 n

/-- A power of ten. -/
abbrev pow10 (n : Nat) : Nat := Nat.pow 10 n

/-- How many values a 64-bit word has. -/
abbrev wordValues : Nat := 18446744073709551616

end NestedRead
