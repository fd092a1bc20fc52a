import NestedRead.Json.Basic

/-!
# Records in JSON

A record is written as an object, whose unknown members do not matter, or as an array that lists
the members in their order and may stop early. A choice among names is written as the name, or
as an object with the name as its only key; what stands under the key is the content of the
choice.
-/

set_option autoImplicit false

namespace NestedRead.Json

/-- The members of a record with these member names, each with its value where it has one. -/
def record? (names : List String) : Json → Option (List (Option Json))
  | .object members => some (names.map fun name => members.lookup name)
  | .array items =>
    if items.length ≤ names.length then
      some (items.map some ++ List.replicate (names.length - items.length) none)
    else none
  | _ => none

/-- The text of a string. -/
def string? : Json → Option String
  | .string s => some s
  | _ => none

def bool? : Json → Option Bool
  | .bool b => some b
  | _ => none

/-- An unsigned 64-bit integer. -/
def nat? : Json → Option Nat
  | .number n => n.toNat?
  | _ => none

def items? : Json → Option (List Json)
  | .array items => some items
  | _ => none

/-- What a reader makes of a value, null standing for nothing. -/
def nullable? {α : Type} (read : Json → Option α) : Json → Option (Option α)
  | .null => some none
  | value => (read value).map some

/-- The value of a member that has to be there. -/
def required? {α : Type} (read : Json → Option α) (member : Option Json) : Option α :=
  member.bind read

/-- The value of a member that may be missing. -/
def optional? {α : Type} (fallback : α) (read : Json → Option α) : Option Json → Option α
  | none => some fallback
  | some value => read value

/-- What a reader makes of each item of an array. -/
def list? {α : Type} (read : Json → Option α) (value : Json) : Option (List α) :=
  value.items?.bind fun items => items.mapM read

/-- A choice without content. -/
def choice? : Json → Option String
  | .string name => some name
  | .object [(name, .null)] => some name
  | _ => none

/-- A choice with content. -/
def tagged? : Json → Option (String × Json)
  | .object [(name, content)] => some (name, content)
  | _ => none

/-- A text, or null. -/
def ofOption (text : Option String) : Json :=
  match text with
  | some s => .string s
  | none => .null

end NestedRead.Json
