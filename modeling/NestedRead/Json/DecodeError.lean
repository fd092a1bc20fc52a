import NestedRead.Json.Writer
import NestedRead.Text.Quoted

/-!
# Why a value has the wrong shape
-/

set_option autoImplicit false

namespace NestedRead.Json

/-- The shape that a reader asks for. -/
inductive Shape where
  | string
  | map
  | sequence
  | record (name : String)
deriving DecidableEq, Repr

/-- How a shape is called in a message. -/
def Shape.text : Shape → String
  | .string => "a string"
  | .map => "a map"
  | .sequence => "a sequence"
  | .record name => s!"struct {name}"

/-- How a value that has the wrong shape is called in a message. -/
def foundText : Json → String
  | .null => "null"
  | .bool true => "boolean `true`"
  | .bool false => "boolean `false`"
  | .number (.int n _) => s!"integer `{n}`"
  | .number (.float x) => s!"floating point `{floatLayout.format x}`"
  | .string s => s!"string {Text.quoted s}"
  | .array _ => "sequence"
  | .object _ => "map"

/-- Why a value has the wrong shape. -/
inductive DecodeError where
  | wrongShape (found : Json) (wanted : Shape)
  | missingField (name : String)
  | duplicateField (name : String)
  /-- An array stops before the last member that its record has to have. -/
  | tooShort (length : Nat) (record : String) (size : Nat)
  /-- An array goes on behind the last member of its record. -/
  | tooLong (length : Nat)
  /-- A value is none of the alternatives of a union. -/
  | noVariant (union : String)

def DecodeError.message : DecodeError → String
  | .wrongShape found wanted => s!"invalid type: {found.foundText}, expected {wanted.text}"
  | .missingField name => s!"missing field `{name}`"
  | .duplicateField name => s!"duplicate field `{name}`"
  | .tooShort length record size =>
    s!"invalid length {length}, expected struct {record} with {size} elements"
  | .tooLong length => s!"invalid length {length}, expected fewer elements in array"
  | .noVariant union => s!"data did not match any variant of untagged enum {union}"

/-- The text of a string, or why there is none. -/
def expectString : Json → Except DecodeError String
  | .string s => .ok s
  | value => .error (.wrongShape value .string)

/-- The members of an object, or why there are none. -/
def expectMap : Json → Except DecodeError Members
  | .object members => .ok members
  | value => .error (.wrongShape value .map)

/-- The items of an array, or why there are none. -/
def expectSequence : Json → Except DecodeError (List Json)
  | .array items => .ok items
  | value => .error (.wrongShape value .sequence)

end NestedRead.Json
