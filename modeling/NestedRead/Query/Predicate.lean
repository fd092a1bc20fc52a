import NestedRead.Query.Column
import NestedRead.Selection.Filter

/-!
# Filters as conditions

A filter becomes a list of terms. The predicates on fields and the members of `_and` are joined
by AND, and each member of `_or` stands as an alternative to all of it; a member that asks for
nothing leaves no trace. A join condition has predicates on fields only. In HAVING a name may
also be an aggregate.

The operators are found without regard to case. Each checks the form of its operand: a truth
value for `is` and `nis`, a scalar for a comparison, a list for `in` and `nin`, two values for
`between` and `nbetween`. An equality test against null becomes a test with IS.
-/

set_option autoImplicit false

namespace NestedRead

/-! ## Operators -/

inductive FilterOperator where
  | compare (comparison : Comparison)
  | member (negated : Bool)
  | between (negated : Bool)
deriving DecidableEq, Repr

namespace FilterOperator

/-- The operator with this name, in any case of its letters. -/
def ofName (name : String) : Except CompileError FilterOperator :=
  match Text.lowerAscii name with
  | "gt" => .ok (.compare .gt)
  | "gte" => .ok (.compare .gte)
  | "lt" => .ok (.compare .lt)
  | "lte" => .ok (.compare .lte)
  | "eq" => .ok (.compare .eq)
  | "ne" => .ok (.compare .ne)
  | "is" => .ok (.compare .is)
  | "nis" => .ok (.compare .isNot)
  | "in" => .ok (.member false)
  | "nin" => .ok (.member true)
  | "between" => .ok (.between false)
  | "nbetween" => .ok (.between true)
  | _ => .error (.unsupportedOperator name)

end FilterOperator

/-- The comparison that is made with a value: null is tested with IS. -/
def Comparison.against (comparison : Comparison) (value : Json) : Comparison :=
  match comparison, value with
  | .eq, .null => .is
  | .ne, .null => .isNot
  | _, _ => comparison

namespace Condition

def ofComparison (column : ColumnRef) (name : String) (comparison : Comparison) (value : Json) :
    Except CompileError Condition :=
  if comparison = .is ∨ comparison = .isNot then
    match value with
    | .null | .bool _ => .ok (.compare column comparison value)
    | _ => .error (.invalidOperand name (.notTruth value))
  else if value.isScalar then .ok (.compare column (comparison.against value) value)
  else .error (.invalidOperand name (.notScalar value))

/-- The condition that an operator with its operand puts on a column. -/
def ofOperator (column : ColumnRef) (name : String) (value : Json) :
    Except CompileError Condition := do
  match ← FilterOperator.ofName name with
  | .compare comparison => ofComparison column name comparison value
  | .member negated =>
    match value with
    | .array values => .ok (.member column values negated)
    | _ => .error (.invalidOperand name (.notList value))
  | .between negated =>
    match value with
    | .array [low, high] => .ok (.between column low high negated)
    | _ => .error (.invalidOperand name (.notPair value))

def ofOperators (column : ColumnRef) : List (String × Json) → Except CompileError (List Condition)
  | [] => .ok []
  | (name, value) :: rest => do
    let condition ← ofOperator column name value
    let conditions ← ofOperators column rest
    return condition :: conditions

end Condition

/-! ## Filters -/

/-- The clause that a filter stands in. -/
inductive FilterClause where
  | filter
  | join
  | having
deriving DecidableEq, Repr

/-- What the names of a filter refer to. -/
structure FilterScope where
  entity : Entity
  tableAlias : String
  clause : FilterClause

namespace FilterScope

def column (scope : FilterScope) (name : String) : Except CompileError ColumnRef :=
  match scope.clause with
  | .having => scope.entity.column scope.tableAlias name
  | .filter | .join => scope.entity.plainColumn scope.tableAlias name

/-- The conditions on one field; at least one operator has to be there. -/
def fieldConditions (scope : FilterScope) (f : FieldFilter) :
    Except CompileError (List Condition) := do
  if f.operators.isEmpty then .error (.invalidOperand f.field .noOperators)
  else
    let column ← scope.column f.field
    Condition.ofOperators column f.operators

def fieldTerms (scope : FilterScope) : List FieldFilter → Except CompileError (List Term)
  | [] => .ok []
  | f :: rest => do
    let conditions ← scope.fieldConditions f
    let terms ← fieldTerms scope rest
    return conditions.map (Conjunction.and, ·) ++ terms

/-- A list of terms as one term in parentheses; no terms make none. -/
def parenthesised (conjunction : Conjunction) (terms : List Term) : List Term :=
  if terms.isEmpty then [] else [(conjunction, .group terms)]

mutual

/-- The terms of a filter, each with its connector. -/
def terms (scope : FilterScope) : FilterExpr → Except CompileError (List Term)
  | ⟨fields, allOf, anyOf⟩ => do
    if scope.clause = .join && (!allOf.isEmpty || !anyOf.isEmpty) then
      .error (.malformedFilter .groupInJoin)
    else
      let fieldTerms ← scope.fieldTerms fields
      let allTerms ← groups scope .and allOf
      let anyTerms ← groups scope .or anyOf
      return fieldTerms ++ allTerms ++ anyTerms

def groups (scope : FilterScope) (conjunction : Conjunction) :
    List FilterExpr → Except CompileError (List Term)
  | [] => .ok []
  | member :: rest => do
    let inner ← terms scope member
    let more ← groups scope conjunction rest
    return parenthesised conjunction inner ++ more

end

/-- The conditions of a filter, without their connectors. -/
def conditions (scope : FilterScope) (filter : FilterExpr) :
    Except CompileError (List Condition) := do
  return (← scope.terms filter).map (·.2)

end FilterScope
end NestedRead
