import NestedRead.Catalog.Basic
import NestedRead.Query.Error
import NestedRead.Statement.Render

/-!
# Columns of an entity

A name in a request stands for a scalar field of the entity, or for an aggregate over one: the
field, two underscores and the function (`price__sum`). Identifiers have no two underscores in a
row, so a name is never both. The functions that calculate are offered on numbers only.

A row carries each column under a key of the table alias, the separator and the name.
-/

set_option autoImplicit false

namespace NestedRead

/-! ## Aggregate functions -/

inductive AggregateFn where
  | count
  | countDistinct
  | min
  | max
  | sum
  | avg
deriving DecidableEq, Repr

namespace AggregateFn

/-- The function with this name, in any case of its letters. -/
def ofName? (name : String) : Option AggregateFn :=
  match Text.lowerAscii name with
  | "count" => some .count
  | "count_distinct" => some .countDistinct
  | "min" => some .min
  | "max" => some .max
  | "sum" => some .sum
  | "avg" => some .avg
  | _ => none

/-- Whether the function needs numbers. -/
def requiresNumeric : AggregateFn → Bool
  | .count | .countDistinct => false
  | .min | .max | .sum | .avg => true

/-- What stands before the column and its closing parenthesis. -/
def opening : AggregateFn → String
  | .count => "count("
  | .countDistinct => "count(distinct "
  | .min => "min("
  | .max => "max("
  | .sum => "sum("
  | .avg => "avg("

def expression (function : AggregateFn) (tableAlias column : String) : String :=
  function.opening ++ Sql.qualified tableAlias column ++ ")"

end AggregateFn

/-- What stands between a field and the function in the name of an aggregate. -/
def aggregateMark : String := "__"

/-! ## Names to columns -/

namespace Entity

/-- The column of a scalar field. -/
def plainColumn (entity : Entity) (tableAlias name : String) : Except CompileError ColumnRef :=
  if (entity.scalarType? name).isSome then .ok (.qualified tableAlias name)
  else .error (.unknownField entity.name name)

/-- The function with this name, if it is offered on fields of this type. -/
def aggregateOn? (type : ScalarType) (function : String) : Option AggregateFn :=
  (AggregateFn.ofName? function).filter fun f => !f.requiresNumeric || type.isNumeric

/-- The column of a scalar field or the expression of an aggregate. -/
def column (entity : Entity) (tableAlias name : String) : Except CompileError ColumnRef :=
  match Text.cutAt? aggregateMark name with
  | none => entity.plainColumn tableAlias name
  | some (source, function) =>
    match entity.scalarType? source with
    | none => .error (.unknownField entity.name name)
    | some type =>
      match aggregateOn? type function with
      | some f => .ok (.raw (f.expression tableAlias source))
      | none => .error (.unsupportedAggregate entity.name source function)

end Entity

/-! ## Projections -/

def columnKey (tableAlias separator name : String) : String :=
  tableAlias ++ separator ++ name

namespace Entity

/-- The projections of the names asked for. -/
def projectionsOf (entity : Entity) (tableAlias separator : String) :
    List String → Except CompileError (List Projection)
  | [] => .ok []
  | name :: rest => do
    let expression ← entity.column tableAlias name
    let projections ← projectionsOf entity tableAlias separator rest
    return ⟨expression, columnKey tableAlias separator name⟩ :: projections

/-- The projections of the names asked for, and of the unique column where it is not among
them. -/
def project (entity : Entity) (tableAlias separator : String) (names : List String) :
    Except CompileError (List Projection) := do
  let projections ← entity.projectionsOf tableAlias separator names
  if names.contains entity.uniqueColumn then return projections
  else
    return projections ++ [⟨.qualified tableAlias entity.uniqueColumn,
      columnKey tableAlias separator entity.uniqueColumn⟩]

end Entity
end NestedRead
