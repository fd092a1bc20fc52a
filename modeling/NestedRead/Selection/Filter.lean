import NestedRead.Query.Error

/-!
# Filter expressions

A filter is an object: under `_and` and `_or` lists of further filters, and under every other key
the operators that a field has to satisfy, each with its operand. Operator names are kept as they
are written; what they mean is decided when the filter is compiled.
-/

set_option autoImplicit false

namespace NestedRead

/-- The operators on one field with their operands. -/
structure FieldFilter where
  field : String
  operators : List (String × Json)

/-- A filter: predicates on fields, filters that all have to hold, and alternatives. -/
structure FilterExpr where
  fields : List FieldFilter
  allOf : List FilterExpr
  anyOf : List FilterExpr

namespace FilterExpr

/-- The filter that asks for nothing. -/
def empty : FilterExpr := ⟨[], [], []⟩

def isEmpty (filter : FilterExpr) : Bool :=
  filter.fields.isEmpty && filter.allOf.isEmpty && filter.anyOf.isEmpty

/-- The key of the filters that all have to hold. -/
def andKey : String := "_and"

/-- The key of the alternatives. -/
def orKey : String := "_or"

mutual

/-- The filter that a value is. -/
def ofJson : Json → Except CompileError FilterExpr
  | .object members => ofMembers empty members
  | value => .error (.malformedFilter (.notObject value))

/-- The filter with the members of an object added, in their order. -/
def ofMembers (filter : FilterExpr) : List (String × Json) → Except CompileError FilterExpr
  | [] => .ok filter
  | (key, value) :: rest => do
    if key = andKey then
      let allOf ← groupOf key value
      ofMembers { filter with allOf } rest
    else if key = orKey then
      let anyOf ← groupOf key value
      ofMembers { filter with anyOf } rest
    else match value with
      | .object operators =>
        ofMembers { filter with fields := filter.fields ++ [⟨key, operators⟩] } rest
      | _ => .error (.malformedFilter (.notOperators key value))

/-- The list of filters under one of the two group keys. -/
def groupOf (key : String) : Json → Except CompileError (List FilterExpr)
  | .array items => ofItems items
  | _ => .error (.malformedFilter (.notList key))

def ofItems : List Json → Except CompileError (List FilterExpr)
  | [] => .ok []
  | item :: rest => do
    let filter ← ofJson item
    let filters ← ofItems rest
    return filter :: filters

end

/-- A filter that may be left out, by null too. -/
def ofOptional : Option Json → Except CompileError (Option FilterExpr)
  | none => .ok none
  | some .null => .ok none
  | some value => (ofJson value).map some

end FilterExpr
end NestedRead
