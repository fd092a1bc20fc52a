import NestedRead.Statement.Basic
import NestedRead.Text.Pieces

/-!
# Parameterised SQL

The text of a statement, in the order of SQL, and the values that its placeholders stand for, in
the order of the placeholders. A value never gets into the text, but for the tests against NULL,
TRUE and FALSE, which are keywords. A membership test over no values and a group of no terms are
written as the constant conditions that they mean.
-/

set_option autoImplicit false

namespace NestedRead

/-! ## Identifiers -/

namespace Sql

/-- A double quote written twice, everything else once. -/
def doubleQuotes : List Char → List Char
  | [] => []
  | c :: cs => if c = '"' then '"' :: '"' :: doubleQuotes cs else c :: doubleQuotes cs

/-- An identifier in double quotes. -/
def identifier (name : String) : String :=
  String.ofList ('"' :: doubleQuotes name.toList ++ ['"'])

/-- A table name, each part between points quoted by itself. -/
def table (name : String) : String :=
  Text.joined "." ((Text.piecesOf '.' name).map identifier)

def qualified (tableAlias column : String) : String :=
  identifier tableAlias ++ "." ++ identifier column

end Sql

/-! ## Keywords -/

def Comparison.sql : Comparison → String
  | .gt => ">"
  | .gte => ">="
  | .lt => "<"
  | .lte => "<="
  | .eq => "="
  | .ne => "<>"
  | .is => "IS"
  | .isNot => "IS NOT"

def Conjunction.sql : Conjunction → String
  | .and => " AND "
  | .or => " OR "

def JoinKind.sql : JoinKind → String
  | .inner => "INNER JOIN"
  | .left => "LEFT JOIN"
  | .right => "RIGHT JOIN"
  | .fullOuter => "FULL OUTER JOIN"
  | .cross => "CROSS JOIN"

def SortDirection.sql : SortDirection → String
  | .ascending => "ASC"
  | .descending => "DESC"

/-! ## Conditions -/

def ColumnRef.sql : ColumnRef → String
  | .qualified tableAlias column => Sql.qualified tableAlias column
  | .raw expression => expression

def Projection.sql (p : Projection) : String :=
  p.expression.sql ++ " AS " ++ Sql.identifier p.name

/-- The keyword that a value is in a test with IS or IS NOT. -/
def Comparison.keyword? : Comparison → Json → Option String
  | .is, .null | .isNot, .null => some "NULL"
  | .is, .bool true | .isNot, .bool true => some "TRUE"
  | .is, .bool false | .isNot, .bool false => some "FALSE"
  | _, _ => none

/-- The word before a negated test. -/
def negation (negated : Bool) : String :=
  if negated then "NOT " else ""

namespace Condition

mutual

/-- The text of a condition. -/
def sql : Condition → String
  | .compare column operator value =>
    column.sql ++ " " ++ operator.sql ++ " " ++ (operator.keyword? value).getD "?"
  | .compareColumns left operator right => left.sql ++ " " ++ operator.sql ++ " " ++ right.sql
  | .member column values negated =>
    if values.isEmpty then (if negated then "1 = 1" else "1 = 0")
    else column.sql ++ " " ++ negation negated ++ "IN ("
      ++ Text.joined ", " (values.map fun _ => "?") ++ ")"
  | .between column _ _ negated => column.sql ++ " " ++ negation negated ++ "BETWEEN ? AND ?"
  | .group [] => "1 = 1"
  | .group (term :: rest) => "(" ++ termSql term ++ moreSql rest ++ ")"

/-- A term without its connector. -/
def termSql : Conjunction × Condition → String
  | (_, condition) => sql condition

/-- Further terms, each behind its connector. -/
def moreSql : List (Conjunction × Condition) → String
  | [] => ""
  | (conjunction, condition) :: rest => conjunction.sql ++ sql condition ++ moreSql rest

end

mutual

/-- The values of the placeholders of a condition. -/
def bindings : Condition → List Json
  | .compare _ operator value => if (operator.keyword? value).isSome then [] else [value]
  | .compareColumns _ _ _ => []
  | .member _ values _ => values
  | .between _ low high _ => [low, high]
  | .group terms => termBindings terms

/-- The values of the placeholders of a list of terms. -/
def termBindings : List (Conjunction × Condition) → List Json
  | [] => []
  | (_, condition) :: rest => bindings condition ++ termBindings rest

end

/-- Terms joined by their connectors; the connector of the first is left out. -/
def termsSql : List Term → String
  | [] => ""
  | term :: rest => termSql term ++ moreSql rest

end Condition

/-! ## Statements -/

namespace Join

def sql (j : Join) : String :=
  let head := " " ++ j.kind.sql ++ " " ++ Sql.table j.table ++ " AS " ++ Sql.identifier j.tableAlias
  if j.conditions.isEmpty then head
  else head ++ " ON " ++ Text.joined " AND " (j.conditions.map Condition.sql)

def bindings (j : Join) : List Json :=
  j.conditions.flatMap Condition.bindings

end Join

/-- A text with placeholders and the values that they stand for. -/
structure Rendered where
  sql : String
  bindings : List Json

namespace Statement

def selectSql (s : Statement) : String :=
  "SELECT " ++ (if s.distinct then "DISTINCT " else "")
    ++ (if s.projections.isEmpty then "*" else Text.joined ", " (s.projections.map Projection.sql))

def sourceSql (s : Statement) : String :=
  match s.source with
  | some (table, tableAlias) => " FROM " ++ Sql.table table ++ " AS " ++ Sql.identifier tableAlias
  | none => ""

def joinsSql (s : Statement) : String :=
  Text.joined "" (s.joins.map Join.sql)

/-- A keyword and what follows it, or nothing at all. -/
def listSection (keyword : String) (parts : List String) : String :=
  if parts.isEmpty then "" else keyword ++ Text.joined ", " parts

/-- A keyword and the terms that follow it, or nothing at all. -/
def termsSection (keyword : String) (terms : List Term) : String :=
  if terms.isEmpty then "" else keyword ++ Condition.termsSql terms

def orderSql (item : ColumnRef × SortDirection) : String :=
  item.1.sql ++ " " ++ item.2.sql

/-- A keyword and a number, or nothing at all. -/
def countSql (keyword : String) : Option Nat → String
  | some n => keyword ++ toString n
  | none => ""

/-- The text of a statement. -/
def sql (s : Statement) : String :=
  s.selectSql ++ s.sourceSql ++ s.joinsSql
    ++ termsSection " WHERE " s.filters
    ++ listSection " GROUP BY " (s.groupBy.map ColumnRef.sql)
    ++ termsSection " HAVING " s.having
    ++ listSection " ORDER BY " (s.orderBy.map orderSql)
    ++ countSql " LIMIT " s.limit
    ++ countSql " OFFSET " s.offset

/-- The values of the placeholders of a statement. -/
def bindings (s : Statement) : List Json :=
  s.joins.flatMap Join.bindings ++ Condition.termBindings s.filters
    ++ Condition.termBindings s.having

/-- The text with its values. -/
def render (s : Statement) : Rendered := ⟨s.sql, s.bindings⟩

end Statement
end NestedRead
