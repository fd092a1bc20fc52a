import NestedRead.Json.Basic

/-!
# SQL statements as data

A statement is what its clauses add up to, not a text. Conditions are a small tree of
comparisons, membership and range tests; the same tree serves WHERE, JOIN … ON and HAVING.
A `Clause` is one addition to a statement. Clauses may come in any order: each goes to its own
place, and `Statement.ofClauses` is the statement that a sequence of them makes.
-/

set_option autoImplicit false

namespace NestedRead

/-! ## Parts -/

/-- A column of a table, or an expression that stands as it is. -/
inductive ColumnRef where
  | qualified (tableAlias column : String)
  | raw (expression : String)
deriving DecidableEq, Repr

/-- An expression and the name under which its value comes out. -/
structure Projection where
  expression : ColumnRef
  name : String
deriving DecidableEq, Repr

inductive Comparison where
  | gt
  | gte
  | lt
  | lte
  | eq
  | ne
  | is
  | isNot
deriving DecidableEq, Repr

/-- How a condition is joined to the ones before it. -/
inductive Conjunction where
  | and
  | or
deriving DecidableEq, Repr

/-- A condition on a row. -/
inductive Condition where
  | compare (column : ColumnRef) (operator : Comparison) (value : Json)
  | compareColumns (left : ColumnRef) (operator : Comparison) (right : ColumnRef)
  | member (column : ColumnRef) (values : List Json) (negated : Bool)
  | between (column : ColumnRef) (low high : Json) (negated : Bool)
  /-- Terms in parentheses. -/
  | group (terms : List (Conjunction × Condition))

/-- A condition with the connector before it. -/
abbrev Term := Conjunction × Condition

inductive JoinKind where
  | inner
  | left
  | right
  | fullOuter
  | cross
deriving DecidableEq, Repr

inductive SortDirection where
  | ascending
  | descending
deriving DecidableEq, Repr

/-- A joined table. The conditions after ON all have to hold. -/
structure Join where
  kind : JoinKind
  table : String
  tableAlias : String
  conditions : List Condition

/-! ## Statements -/

/-- A SELECT statement. -/
structure Statement where
  /-- The first table and its alias. -/
  source : Option (String × String) := none
  projections : List Projection := []
  joins : List Join := []
  filters : List Term := []
  groupBy : List ColumnRef := []
  having : List Term := []
  orderBy : List (ColumnRef × SortDirection) := []
  limit : Option Nat := none
  offset : Option Nat := none
  distinct : Bool := false

/-- One addition to a statement. -/
inductive Clause where
  | source (table tableAlias : String)
  | select (projections : List Projection)
  | join (join : Join)
  | filter (term : Term)
  | groupBy (column : ColumnRef)
  | having (term : Term)
  | orderBy (column : ColumnRef) (direction : SortDirection)
  | limit (n : Nat)
  | offset (n : Nat)
  | distinct

namespace Statement

/-- The statement with one clause more. The last source, limit and offset count; everything else
is added behind what is there. -/
def apply (s : Statement) : Clause → Statement
  | .source table tableAlias => { s with source := some (table, tableAlias) }
  | .select projections => { s with projections := s.projections ++ projections }
  | .join join => { s with joins := s.joins ++ [join] }
  | .filter term => { s with filters := s.filters ++ [term] }
  | .groupBy column => { s with groupBy := s.groupBy ++ [column] }
  | .having term => { s with having := s.having ++ [term] }
  | .orderBy column direction => { s with orderBy := s.orderBy ++ [(column, direction)] }
  | .limit n => { s with limit := some n }
  | .offset n => { s with offset := some n }
  | .distinct => { s with distinct := true }

def ofClauses (clauses : List Clause) : Statement :=
  clauses.foldl apply {}

end Statement
end NestedRead
