import NestedRead.Json.Writer

/-!
# Ids of records

The value of a unique column tells the records of an entity apart. Numbers come before text, in
numeric order; an integer and a float are compared by rounding the integer to the float's format,
and where that gives the same float the integer comes first. Booleans count as their text.
-/

set_option autoImplicit false

namespace NestedRead

/-- The id of one record. -/
inductive EntityId where
  | integer (n : Int)
  | float (x : Binary64)
  | text (s : String)
deriving DecidableEq

namespace EntityId

/-! ## From values -/

/-- The id that a value is: none for null, which marks a join without a match. An array or an
object is no id. -/
def ofJson : Json → Except Json (Option EntityId)
  | .null => .ok none
  | .number (.int n _) => .ok (some (.integer n))
  | .number (.float x) => .ok (some (.float x))
  | .string s => .ok (some (.text s))
  | .bool b => .ok (some (.text (if b then "true" else "false")))
  | value => .error value

/-! ## Order -/

/-- The order of ids. -/
def cmp : EntityId → EntityId → Ordering
  | .integer a, .integer b => compare a b
  | .float a, .float b => compare a.key b.key
  | .text a, .text b => compare a b
  | .integer a, .float b => (compare (Binary64.keyOfInt a) b.key).then .lt
  | .float a, .integer b => (compare a.key (Binary64.keyOfInt b)).then .gt
  | .text _, _ => .gt
  | _, .text _ => .lt

/-! ## Hashing -/

/-- One thing that a hasher is fed. -/
inductive HashInput where
  | byte (value : UInt8)
  | word (value : UInt64)
  | wide (value : BitVec 128)
  | text (value : String)
deriving DecidableEq

/-- The form of an id as a number. -/
def rank : EntityId → UInt8
  | .integer _ => 0
  | .float _ => 1
  | .text _ => 2

/-- What a hasher is fed for an id: its form, then an integer as a signed word, a float as its
bits or the text. -/
def hashInputs (id : EntityId) : List HashInput :=
  .byte id.rank :: match id with
    | .integer n => [.wide (BitVec.ofInt 128 n)]
    | .float x => [.word x.bits]
    | .text s => [.text s]

/-! ## Text -/

/-- A float in a message never has an exponent and has a point only where digits follow; a tie
between two shortest texts goes upward. -/
def floatLayout : Number.Layout :=
  { tie := .upward, pointAlways := false, range := none }

/-- How an id is called in a message. -/
def display : EntityId → String
  | .integer n => toString n
  | .float x => floatLayout.format x
  | .text s => s

end EntityId
end NestedRead
