import NestedRead.Proofs.Sql.Columns
import NestedRead.Proofs.Sql.Condition
import NestedRead.Proofs.Sql.Loops

/-!
# What a statement answers

A database has rows in every table, and a row has a value in every column, null where it has none.
A statement joins row by row: the rows of the first table one after the other, and inside that each
joined table in turn, keeping the rows for which all conditions after ON hold. A left join that
finds no row goes on with nulls once. WHERE keeps what its terms hold for, and each of these
environments makes one row of the answer.

How two values compare is up to the database (`Dialect`), but for null: a comparison with it is
unknown unless it is made with IS. Statements with grouping, ordering, limits, expressions or a join
that keeps rows of its right side are not given an answer.
-/

set_option autoImplicit false

namespace NestedRead

/-! ## Databases -/

/-- The values of a row by column. -/
abbrev Tuple := String → Json

/-- The rows of each table, in their order. -/
abbrev Database := String → List Tuple

/-- How a database compares values. -/
structure Dialect where
  compare : Comparison → Json → Json → Truth
  null_left : ∀ comparison y, comparison ≠ .is → comparison ≠ .isNot →
    compare comparison .null y = .unknown
  null_right : ∀ comparison x, comparison ≠ .is → comparison ≠ .isNot →
    compare comparison x .null = .unknown

namespace Dialect

/-- Two values are known to be equal. -/
def equal (d : Dialect) (x y : Json) : Bool := d.compare .eq x y = .yes

theorem equal_null_left (d : Dialect) (y : Json) : d.equal .null y = false := by
  rw [equal, d.null_left .eq y (by decide) (by decide)]
  rfl

/-- The value of a column in an environment, null where its alias has no row. -/
def valueIn (env : Env Tuple) : ColumnRef → Json
  | .qualified tableAlias column => ((env tableAlias).map (· column)).getD .null
  | .raw _ => .null

/-- Columns have the values of an environment. -/
def within (d : Dialect) (env : Env Tuple) : Interpretation := ⟨valueIn env, d.compare⟩

end Dialect

/-! ## Joins -/

namespace Join

variable (d : Dialect) (db : Database)

def holds (j : Join) (env : Env Tuple) : Bool :=
  Truth.all (Condition.truths (d.within env) j.conditions) = .yes

/-- The rows that a join finds for an environment. -/
def found (j : Join) (env : Env Tuple) : List Tuple :=
  (db j.table).filter fun t => j.holds d (env.set j.tableAlias (some t))

/-- What an environment becomes in a join. -/
def step (j : Join) (env : Env Tuple) : List (Env Tuple) :=
  (if j.kind = .left then orNone (j.found d db env) else (j.found d db env).map some).map
    (env.set j.tableAlias)

end Join

/-! ## Statements -/

/-- A join that keeps no row of its right side for itself. -/
def JoinKind.keepsLeft : JoinKind → Bool
  | .inner | .left | .cross => true
  | .right | .fullOuter => false

namespace Statement

/-- A statement of nothing but columns, such joins, and conditions. -/
def isPlain (s : Statement) : Bool :=
  s.joins.all (fun j => j.kind.keepsLeft) && s.projections.all (fun p => p.expression.isQualified)
    && s.groupBy.isEmpty && s.having.isEmpty && s.orderBy.isEmpty && s.limit.isNone &&
    s.offset.isNone && !s.distinct

def rowOf (s : Statement) (env : Env Tuple) : Json.Members :=
  s.projections.map fun p => (p.name, Dialect.valueIn env p.expression)

/-- Whether the terms of WHERE hold. -/
def keeps (d : Dialect) (s : Statement) (env : Env Tuple) : Bool :=
  Condition.termsTruth (d.within env) s.filters = .yes

/-- The rows that a plain statement answers, in their order. -/
def answer? (d : Dialect) (db : Database) (s : Statement) : Option (List Json.Members) :=
  match s.source with
  | some (table, tableAlias) =>
    if s.isPlain then
      some ((((db table).flatMap fun t =>
        extend (Join.step d db) s.joins (Env.only tableAlias t)).filter (s.keeps d)).map s.rowOf)
    else none
  | none => none

end Statement
end NestedRead
