import NestedRead.Json.DecodeError

/-!
# Why a request cannot be compiled
-/

set_option autoImplicit false

namespace NestedRead

/-- What is wrong with the form of a filter. -/
inductive FilterFault where
  | notObject (found : Json)
  | notOperators (field : String) (found : Json)
  | notList (key : String)
  | groupInJoin

/-- What is wrong with the form of a selection. -/
inductive SelectionFault where
  | conflictingArguments (relation : String)
  | notBoolean (argument : String) (found : Json)
  | notCount (argument : String) (found : Json)
  | malformedList (argument : String) (error : Json.DecodeError)

/-- What is wrong with an operand. -/
inductive OperandFault where
  | noOperators
  | notTruth (found : Json)
  | notScalar (found : Json)
  | notList (found : Json)
  | notPair (found : Json)
  | crossJoinCondition (field : String)

/-- Why a request cannot be compiled. -/
inductive CompileError where
  | unsupportedOperator (operator : String)
  | invalidJoinType (text : String)
  | unknownTarget (entity relation target : String)
  | unknownEntity (name : String)
  | unknownField (entity name : String)
  | unsupportedAggregate (entity source function : String)
  | invalidOperand (operator : String) (fault : OperandFault)
  | invalidSortDirection (text : String)
  | malformedFilter (fault : FilterFault)
  | malformedSelection (fault : SelectionFault)

def FilterFault.message : FilterFault → String
  | .notObject found => s!"expected an object, got {found.compact}"
  | .notOperators name found =>
    s!"filter on `{name}` must be an operator object, got {found.compact}"
  | .notList key => s!"`{key}` expects a list of filters"
  | .groupInJoin => "`_and` / `_or` are not allowed in a join condition"

def SelectionFault.message : SelectionFault → String
  | .conflictingArguments relation =>
    s!"relation `{relation}` is selected more than once with different arguments"
  | .notBoolean argument found => s!"`{argument}` expects a boolean, got {found.compact}"
  | .notCount argument found =>
    s!"`{argument}` expects a non-negative integer, got {found.compact}"
  | .malformedList argument error => s!"`{argument}`: {error.message}"

def OperandFault.message : OperandFault → String
  | .noOperators => "empty operator object"
  | .notTruth found => s!"expects null, true or false, got {found.compact}"
  | .notScalar found => s!"expects a scalar, got {found.compact}"
  | .notList found => s!"expects a list, got {found.compact}"
  | .notPair found => s!"expects [low, high], got {found.compact}"
  | .crossJoinCondition name => s!"cross join on `{name}` takes no join condition"

def CompileError.message : CompileError → String
  | .unsupportedOperator operator => s!"Not supported operator: {operator}"
  | .invalidJoinType text => s!"Invalid join type: {text}"
  | .unknownTarget entity relation target =>
    s!"Invalid relation type `{target}` for field `{relation}` of entity `{entity}`"
  | .unknownEntity name => s!"Unknown entity `{name}`"
  | .unknownField entity name => s!"Unknown field `{name}` on entity `{entity}`"
  | .unsupportedAggregate entity source function =>
    s!"Unsupported aggregate `{function}` on field `{source}` of entity `{entity}`"
  | .invalidOperand operator fault => s!"Invalid operand for `{operator}`: {fault.message}"
  | .invalidSortDirection text => s!"Invalid sort direction: {text}"
  | .malformedFilter fault => s!"Malformed filter: {fault.message}"
  | .malformedSelection fault => s!"Malformed selection: {fault.message}"

end NestedRead
