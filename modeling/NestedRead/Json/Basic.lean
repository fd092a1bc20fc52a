import NestedRead.Binary64

/-!
# JSON values

A value as it is read from a document and written into one. Members of an object keep the order
in which their keys first appeared, and an object holds each key once: `Json.put` replaces a
member in its place and appends a new one.

A number is a 64-bit integer, signed or unsigned, or else a binary64 value; the two never equal
each other. `Json.same` is equality of values: it ignores the order of members and the sign of
a zero.
-/

set_option autoImplicit false

namespace NestedRead

/-! ## Numbers -/

/-- The integers that a signed or an unsigned 64-bit word can hold. -/
def Number.InRange (n : Int) : Prop :=
  -9223372036854775808 ≤ n ∧ n < 18446744073709551616

instance (n : Int) : Decidable (Number.InRange n) :=
  inferInstanceAs (Decidable (_ ∧ _))

/-- A JSON number. -/
inductive Number where
  | int (value : Int) (inRange : Number.InRange value)
  | float (value : Binary64)
deriving DecidableEq

namespace Number

/-- Integers are equal to integers and floats to floats, by value. -/
def same : Number → Number → Bool
  | .int a _, .int b _ => a == b
  | .float a, .float b => a.sameValue b
  | _, _ => false

/-- The unsigned 64-bit integer that a number is, if it is one. -/
def toNat? : Number → Option Nat
  | .int n _ => if 0 ≤ n then some n.toNat else none
  | .float _ => none

end Number

/-! ## Values -/

/-- A JSON value. -/
inductive Json where
  | null
  | bool (value : Bool)
  | number (value : Number)
  | string (text : String)
  | array (items : List Json)
  | object (members : List (String × Json))
deriving Inhabited

namespace Json

/-- The members of an object, in the order in which their keys first appeared. -/
abbrev Members := List (String × Json)

/-- An integer as a value; one that no 64-bit word holds has none. -/
def int? (n : Int) : Option Json :=
  if h : Number.InRange n then some (.number (.int n h)) else none

/-- A natural number as a value, cut off at the largest unsigned 64-bit integer. -/
def ofNat (n : Nat) : Json :=
  (int? n).getD (.number (.int 18446744073709551615 (by decide)))

/-- Null, boolean, number or string. -/
def isScalar : Json → Bool
  | .array _ | .object _ => false
  | _ => true

/-! ## Members -/

/-- The value under a key. -/
def get? (members : Members) (key : String) : Option Json :=
  members.lookup key

/-- A member with this value: in the place of the key where the object has it, else at the end. -/
def put (members : Members) (key : String) (value : Json) : Members :=
  match members with
  | [] => [(key, value)]
  | (k, v) :: rest => if k = key then (k, value) :: rest else (k, v) :: put rest key value

/-- The members that a list of key-value pairs stands for: the last value of a repeated key, at
the place of the first. -/
def ofPairs (pairs : Members) : Members :=
  pairs.foldl (fun members (key, value) => put members key value) []

/-! ## Equality -/

mutual

/-- Equality of values: members in any order, and the two zeros alike. -/
def same : Json → Json → Bool
  | .null, .null => true
  | .bool a, .bool b => a == b
  | .number a, .number b => a.same b
  | .string a, .string b => a == b
  | .array xs, .array ys => sameItems xs ys
  | .object xs, .object ys => xs.length == ys.length && sameMembers xs ys
  | _, _ => false

/-- The same values in the same order. -/
def sameItems : List Json → List Json → Bool
  | [], [] => true
  | x :: xs, y :: ys => same x y && sameItems xs ys
  | _, _ => false

/-- Every member of the first list has its equal under the same key of the second. -/
def sameMembers : Members → Members → Bool
  | [], _ => true
  | (key, x) :: xs, ys =>
    (match ys.lookup key with
      | some y => same x y
      | none => false) && sameMembers xs ys

end

end Json
end NestedRead
