import NestedRead.Config.Basic
import NestedRead.Query.Alias
import NestedRead.Query.Layout
import NestedRead.Query.Predicate
import NestedRead.Selection.Tree

/-!
# Compiling a selection tree

A tree becomes one flat statement and the layout of its rows. The clauses are emitted one after
the other: the root table and its columns, then relation by relation, depth first, the joins and
columns of each node, then the clauses that belong to the root alone. Two joins lead through an
associative table; its alias is taken after the child's, but it is joined first.

The trail of a compilation holds the clauses and the notices in the order in which they came,
also where it ends in an error.
-/

set_option autoImplicit false

namespace NestedRead

/-- What a compilation emits. -/
inductive Emission where
  | clause (clause : Clause)
  | notice (notice : Notice)

namespace Emission

def clause? : Emission → Option Clause
  | .clause c => some c
  | .notice _ => none

def notice? : Emission → Option Notice
  | .clause _ => none
  | .notice n => some n

end Emission

/-- A step of a compilation. -/
abbrev Compiling (α : Type) := Traced Emission CompileError α

namespace Compiling

def clause (c : Clause) : Compiling Unit := Traced.emit (.clause c)

def notice (n : Notice) : Compiling Unit := Traced.emit (.notice n)

/-- Something that may fail without a trace. -/
def check {α : Type} (x : Except CompileError α) : Compiling α := Traced.ofExcept x

end Compiling

open Compiling (clause notice check)

/-! ## Words of a request -/

/-- The join kind that a word stands for, in any case of its letters; no word is an inner join. -/
def JoinKind.ofWord : Option String → Except CompileError JoinKind
  | none => .ok .inner
  | some word =>
    match Text.lowerAscii word with
    | "join" | "inner" | "innerjoin" => .ok .inner
    | "left" | "leftjoin" => .ok .left
    | "right" | "rightjoin" => .ok .right
    | "full" | "fullouter" | "fullouterjoin" => .ok .fullOuter
    | "cross" | "crossjoin" => .ok .cross
    | _ => .error (.invalidJoinType word)

/-- The direction that a word stands for, in any case of its letters; no word is ascending. -/
def SortDirection.ofWord : Option String → Except CompileError SortDirection
  | none => .ok .ascending
  | some word =>
    match Text.lowerAscii word with
    | "asc" => .ok .ascending
    | "desc" => .ok .descending
    | _ => .error (.invalidSortDirection word)

/-! ## Joins -/

namespace Join

/-- The condition that two columns are equal; a cross join has none. -/
def keys (kind : JoinKind) (leftAlias left rightAlias right : String) : List Condition :=
  if kind = .cross then []
  else [.compareColumns (.qualified leftAlias left) .eq (.qualified rightAlias right)]

/-- The joins from a parent to a child and the registry after them. `filter` holds the further
conditions on the child. -/
def forRelation (kind : JoinKind) (relation : Relation) (parentAlias : String) (child : Entity)
    (childAlias : String) (filter : List Condition) (aliases : AliasRegistry) :
    List Join × AliasRegistry :=
  match relation.through with
  | none =>
    ([{ kind, table := child.table, tableAlias := childAlias,
        conditions := keys kind parentAlias relation.fromColumn childAlias relation.toColumn
          ++ filter }], aliases)
  | some through =>
    -- The schema of a table has no part in its alias.
    let name := (Text.piecesOf '.' through.table).getLastD through.table
    let (throughAlias, aliases) := aliases.assign name
    ([{ kind, table := through.table, tableAlias := throughAlias,
        conditions := keys kind parentAlias relation.fromColumn throughAlias through.fromColumn },
      { kind, table := child.table, tableAlias := childAlias,
        conditions := keys kind throughAlias through.toColumn childAlias relation.toColumn
          ++ filter }], aliases)

end Join

/-- What stays the same while the joins of a statement are planned. -/
structure JoinPlan where
  catalog : Catalog
  separator : String

namespace JoinPlan

/-- Whether a relation asks for an ordering or pagination of its own. -/
def paginates (args : RelationArgs) : Bool :=
  !args.orderBy.isEmpty || args.limit.isSome || args.offset.isSome

/-- The relation that a field is and the entity that it leads to. -/
def target (plan : JoinPlan) (parent : Entity) (field : String) :
    Except CompileError (Relation × Entity) :=
  match parent.relation? field with
  | none => .error (.unknownField parent.name field)
  | some relation =>
    match plan.catalog.get? relation.target with
    | none => .error (.unknownTarget parent.name field relation.target)
    | some child => .ok (relation, child)

/-- The conditions of a relation on its child. A cross join takes none. -/
def joinConditions (kind : JoinKind) (field : String) (child : Entity) (childAlias : String)
    (filter : Option FilterExpr) : Except CompileError (List Condition) := do
  let conditions ← match filter with
    | none => pure []
    | some filter => FilterScope.conditions ⟨child, childAlias, .join⟩ filter
  if kind = .cross ∧ !conditions.isEmpty then
    .error (.invalidOperand "on" (.crossJoinCondition field))
  else return conditions

mutual

/-- The joins and columns below a node whose table has this alias: the bindings of the nodes in
the order of the walk, and the registry after it. -/
def node (plan : JoinPlan) (parentAlias : String) (aliases : AliasRegistry) :
    SelectionNode → Compiling (List Binding × AliasRegistry)
  | .mk entity _ _ relations =>
    match plan.catalog.get? entity with
    | none => Traced.fail (.unknownEntity entity)
    | some parent => nodes plan parent parentAlias aliases relations

/-- The same for the relations of a node, one after the other. -/
def nodes (plan : JoinPlan) (parent : Entity) (parentAlias : String) (aliases : AliasRegistry) :
    List RelationSelection → Compiling (List Binding × AliasRegistry)
  | [] => pure ([], aliases)
  | r :: rest => do
    let (bindings, aliases) ← edge plan parent parentAlias aliases r
    let (more, aliases) ← nodes plan parent parentAlias aliases rest
    return (bindings ++ more, aliases)

/-- The same for one relation: its joins, the columns of its child, and what is below it. -/
def edge (plan : JoinPlan) (parent : Entity) (parentAlias : String) (aliases : AliasRegistry) :
    RelationSelection → Compiling (List Binding × AliasRegistry)
  | .mk field args child => do
    let (relation, entity) ← check (plan.target parent field)
    let kind ← check (JoinKind.ofWord args.joinType)
    let (childAlias, aliases) := aliases.assign entity.name
    let filter ← check (joinConditions kind field entity childAlias args.joinFilter)
    if paginates args then notice (.paginationIgnored child.path)
    let (joins, aliases) :=
      Join.forRelation kind relation parentAlias entity childAlias filter aliases
    Traced.emitAll (joins.map fun j => .clause (.join j))
    notice (.joined child.path childAlias kind)
    let projections ← check (entity.project childAlias plan.separator child.scalars)
    clause (.select projections)
    let binding : Binding :=
      { path := child.path, tableAlias := childAlias, entity := entity.name,
        uniqueColumn := entity.uniqueColumn, multiplicity := some relation.multiplicity }
    let (below, aliases) ← node plan childAlias aliases child
    return (binding :: below, aliases)

end

end JoinPlan

/-! ## The clauses of the root -/

namespace Config

/-- The limit that a request gets, with a notice where it was clamped. -/
def effectiveLimit (config : Config) (requested : Option Nat) :
    Traced Notice CompileError (Option Nat) :=
  match config.limit? requested, requested.or config.defaultLimit with
  | some (limit, true), some asked => do
    Traced.emit (.limitClamped asked limit)
    return some limit
  | found, _ => pure (found.map (·.1))

end Config

namespace Compiling

def filterTerms (scope : FilterScope) : Option FilterExpr → Compiling (List Term)
  | none => pure []
  | some filter => check (scope.terms filter)

/-- A grouping by each of the named fields. -/
def groupings (entity : Entity) (base : String) : List String → Compiling Unit
  | [] => pure ()
  | name :: rest => do
    clause (.groupBy (← check (entity.plainColumn base name)))
    groupings entity base rest

def orderings (entity : Entity) (base : String) : List OrderItem → Compiling Unit
  | [] => pure ()
  | item :: rest => do
    let direction ← check (SortDirection.ofWord item.direction)
    clause (.orderBy (← check (entity.column base item.column)) direction)
    orderings entity base rest

/-- The clauses that belong to the root alone. -/
def rootClauses (config : Config) (entity : Entity) (args : RootArgs) : Compiling Unit := do
  let base := config.baseAlias
  let filters ← filterTerms ⟨entity, base, .filter⟩ args.filter
  Traced.emitAll (filters.map fun term => .clause (.filter term))
  groupings entity base args.groupBy
  let having ← filterTerms ⟨entity, base, .having⟩ args.having
  Traced.emitAll (having.map fun term => .clause (.having term))
  orderings entity base args.orderBy
  match ← (config.effectiveLimit args.limit).bimap .notice id with
  | some n => clause (.limit n)
  | none => pure ()
  match args.offset with
  | some n => clause (.offset n)
  | none => pure ()
  if args.distinct then clause .distinct

end Compiling

/-! ## Statements -/

namespace SelectionTree

/-- The clauses of the statement for a tree, and the layout of its rows. -/
def assemble (catalog : Catalog) (config : Config) (tree : SelectionTree) : Compiling Layout :=
  match catalog.get? tree.root.entity with
  | none => Traced.fail (.unknownEntity tree.root.entity)
  | some entity => do
    let base := config.baseAlias
    let separator := config.aliasSeparator
    clause (.source entity.table base)
    clause (.select (← check (entity.project base separator tree.root.scalars)))
    let binding : Binding :=
      { path := tree.root.path, tableAlias := base, entity := entity.name,
        uniqueColumn := entity.uniqueColumn, multiplicity := none }
    let (below, _) ← JoinPlan.node ⟨catalog, separator⟩ base (.withBase base) tree.root
    Compiling.rootClauses config entity tree.args
    return { separator, bindings := binding :: below }

end SelectionTree

/-- A statement to execute and how to read its rows back. -/
structure CompiledRead where
  statement : Statement
  layout : Layout

namespace SelectionTree

/-- The statement that the clauses of a tree make, with the layout of its rows. -/
def compile (catalog : Catalog) (config : Config) (tree : SelectionTree) :
    Traced Notice CompileError CompiledRead :=
  let assembled := tree.assemble catalog config
  let notices := assembled.trail.filterMap Emission.notice?
  match assembled.outcome with
  | .error e => ⟨notices, .error e⟩
  | .ok layout =>
    let statement := Statement.ofClauses (assembled.trail.filterMap Emission.clause?)
    let summary := Notice.compiled tree.root.entity statement.projections.length
      statement.joins.length
    ⟨notices ++ [summary], .ok { statement, layout }⟩

end SelectionTree
end NestedRead
