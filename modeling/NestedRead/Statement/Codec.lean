import NestedRead.Json.Record
import NestedRead.Notice

/-!
# Statements in JSON

A statement and its parts as values: a choice is an object whose only key names the alternative,
and a record has all its members in a fixed order. Reading accepts what a record allows; only the
source, limit and offset of a statement may be missing, and only where it is written as an object.
-/

set_option autoImplicit false

namespace NestedRead

open Json

/-! ## Names of the alternatives -/

namespace Comparison

def name : Comparison → String
  | .gt => "Gt"
  | .gte => "Gte"
  | .lt => "Lt"
  | .lte => "Lte"
  | .eq => "Eq"
  | .ne => "Ne"
  | .is => "Is"
  | .isNot => "IsNot"

def all : List Comparison := [.gt, .gte, .lt, .lte, .eq, .ne, .is, .isNot]

def ofJson? (value : Json) : Option Comparison :=
  value.choice?.bind fun word => all.find? (·.name == word)

end Comparison

namespace Conjunction

def name : Conjunction → String
  | .and => "And"
  | .or => "Or"

def ofJson? (value : Json) : Option Conjunction :=
  value.choice?.bind fun word => [Conjunction.and, .or].find? (·.name == word)

end Conjunction

def JoinKind.ofJson? (value : Json) : Option JoinKind :=
  value.choice?.bind fun word =>
    [JoinKind.inner, .left, .right, .fullOuter, .cross].find? (·.name == word)

namespace SortDirection

def name : SortDirection → String
  | .ascending => "Asc"
  | .descending => "Desc"

def ofJson? (value : Json) : Option SortDirection :=
  value.choice?.bind fun word => [SortDirection.ascending, .descending].find? (·.name == word)

end SortDirection

/-! ## Writing -/

def ColumnRef.toJson : ColumnRef → Json
  | .qualified tableAlias column =>
    .object [("Qualified", .object [("table_alias", .string tableAlias),
      ("column", .string column)])]
  | .raw expression => .object [("Raw", .string expression)]

def Projection.toJson (p : Projection) : Json :=
  .object [("expression", p.expression.toJson), ("alias", .string p.name)]

namespace Condition

mutual

def toJson : Condition → Json
  | .compare column operator value =>
    .object [("Compare", .object [("column", column.toJson),
      ("operator", .string operator.name), ("value", value)])]
  | .compareColumns left operator right =>
    .object [("ColumnCompare", .object [("left", left.toJson),
      ("operator", .string operator.name), ("right", right.toJson)])]
  | .member column values negated =>
    .object [("In", .object [("column", column.toJson), ("values", .array values),
      ("negated", .bool negated)])]
  | .between column low high negated =>
    .object [("Between", .object [("column", column.toJson), ("low", low), ("high", high),
      ("negated", .bool negated)])]
  | .group terms => .object [("Group", .array (termsToJson terms))]

def termsToJson : List (Conjunction × Condition) → List Json
  | [] => []
  | (conjunction, condition) :: rest =>
    .object [("conjunction", .string conjunction.name), ("condition", toJson condition)]
      :: termsToJson rest

end

end Condition

def Join.toJson (j : Join) : Json :=
  .object [("kind", .string j.kind.name), ("table", .string j.table),
    ("alias", .string j.tableAlias), ("on", .array (j.conditions.map Condition.toJson))]

namespace Statement

/-- A number of rows, or null. -/
def countJson (n : Option Nat) : Json :=
  (n.map Json.ofNat).getD .null

def toJson (s : Statement) : Json :=
  .object [
    ("from", match s.source with
      | some (table, tableAlias) => .array [.string table, .string tableAlias]
      | none => .null),
    ("projections", .array (s.projections.map Projection.toJson)),
    ("joins", .array (s.joins.map Join.toJson)),
    ("filters", .array (Condition.termsToJson s.filters)),
    ("group_by", .array (s.groupBy.map ColumnRef.toJson)),
    ("having", .array (Condition.termsToJson s.having)),
    ("order_by", .array (s.orderBy.map fun (column, direction) =>
      .array [column.toJson, .string direction.name])),
    ("limit", countJson s.limit),
    ("offset", countJson s.offset),
    ("distinct", .bool s.distinct)]

end Statement

/-! ## Reading -/

def ColumnRef.ofJson? (value : Json) : Option ColumnRef := do
  match ← value.tagged? with
  | ("Qualified", content) =>
    let [tableAlias, column] ← content.record? ["table_alias", "column"] | none
    return .qualified (← required? string? tableAlias) (← required? string? column)
  | ("Raw", .string expression) => return .raw expression
  | _ => none

def Projection.ofJson? (value : Json) : Option Projection := do
  let [expression, name] ← value.record? ["expression", "alias"] | none
  return ⟨← required? ColumnRef.ofJson? expression, ← required? string? name⟩

namespace Condition

/-- A condition whose groups nest at most `depth` levels deep. A missing operand is an error even
where it could be null. -/
def ofJsonWithin? : Nat → Json → Option Condition
  | 0, _ => none
  | depth + 1, value => do
    match ← value.tagged? with
    | ("Compare", content) =>
      let [column, operator, operand] ← content.record? ["column", "operator", "value"] | none
      return .compare (← required? ColumnRef.ofJson? column)
        (← required? Comparison.ofJson? operator) (← operand)
    | ("ColumnCompare", content) =>
      let [left, operator, right] ← content.record? ["left", "operator", "right"] | none
      return .compareColumns (← required? ColumnRef.ofJson? left)
        (← required? Comparison.ofJson? operator) (← required? ColumnRef.ofJson? right)
    | ("In", content) =>
      let [column, values, negated] ← content.record? ["column", "values", "negated"] | none
      return .member (← required? ColumnRef.ofJson? column) (← required? items? values)
        (← required? bool? negated)
    | ("Between", content) =>
      let [column, low, high, negated] ←
        content.record? ["column", "low", "high", "negated"] | none
      return .between (← required? ColumnRef.ofJson? column) (← low) (← high)
        (← required? bool? negated)
    | ("Group", .array items) =>
      let terms ← items.mapM fun item => do
        let [conjunction, condition] ← item.record? ["conjunction", "condition"] | none
        return (← required? Conjunction.ofJson? conjunction,
          ← required? (ofJsonWithin? depth) condition)
      return .group terms
    | _ => none

/-- A condition. A document does not nest deeply enough to exceed the bound. -/
def ofJson? (value : Json) : Option Condition := ofJsonWithin? 128 value

/-- A condition with its connector. -/
def termOfJson? (value : Json) : Option Term := do
  let [conjunction, condition] ← value.record? ["conjunction", "condition"] | none
  return (← required? Conjunction.ofJson? conjunction, ← required? ofJson? condition)

end Condition

def Join.ofJson? (value : Json) : Option Join := do
  let [kind, table, tableAlias, conditions] ← value.record? ["kind", "table", "alias", "on"]
    | none
  return { kind := ← required? JoinKind.ofJson? kind
           table := ← required? string? table
           tableAlias := ← required? string? tableAlias
           conditions := ← required? (list? Condition.ofJson?) conditions }

namespace Statement

/-- Two values in an array. -/
def pair? {α β : Type} (first : Json → Option α) (second : Json → Option β) :
    Json → Option (α × β)
  | .array [a, b] => do return (← first a, ← second b)
  | _ => none

def ofJson? (value : Json) : Option Statement := do
  let [source, projections, joins, filters, groupBy, having, orderBy, limit, offset, distinct] ←
    value.record? ["from", "projections", "joins", "filters", "group_by", "having", "order_by",
      "limit", "offset", "distinct"] | none
  return { source := ← optional? none (nullable? (pair? string? string?)) source
           projections := ← required? (list? Projection.ofJson?) projections
           joins := ← required? (list? Join.ofJson?) joins
           filters := ← required? (list? Condition.termOfJson?) filters
           groupBy := ← required? (list? ColumnRef.ofJson?) groupBy
           having := ← required? (list? Condition.termOfJson?) having
           orderBy := ← required? (list? (pair? ColumnRef.ofJson? SortDirection.ofJson?)) orderBy
           limit := ← optional? none (nullable? nat?) limit
           offset := ← optional? none (nullable? nat?) offset
           distinct := ← required? bool? distinct }

end Statement

/-! ## Clauses -/

/-- A clause as the name of what is added and its parts. -/
def Clause.toJson : Clause → Json
  | .source table tableAlias => .array [.string "from_table", .string table, .string tableAlias]
  | .select projections =>
    .array [.string "select", .array (projections.map fun p =>
      .array [p.expression.toJson, .string p.name])]
  | .join j =>
    .array [.string "join", .string j.kind.name, .string j.table, .string j.tableAlias,
      .array (j.conditions.map Condition.toJson)]
  | .filter (conjunction, condition) =>
    .array [.string "where", .string conjunction.name, condition.toJson]
  | .groupBy column => .array [.string "group_by", column.toJson]
  | .having (conjunction, condition) =>
    .array [.string "having", .string conjunction.name, condition.toJson]
  | .orderBy column direction =>
    .array [.string "order_by", column.toJson, .string direction.name]
  | .limit n => .array [.string "limit", Json.ofNat n]
  | .offset n => .array [.string "offset", Json.ofNat n]
  | .distinct => .array [.string "distinct"]

end NestedRead
