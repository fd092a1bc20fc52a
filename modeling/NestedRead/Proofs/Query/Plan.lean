import NestedRead.Proofs.Selection.WellFormed
import NestedRead.Query.Compile

/-!
# The plan of a statement

A plan is a selection tree with everything that compiling decides about it: at each node the entity,
the alias of its table and its projections, on each branch the relation, the kind of the join, the
alias of the table in between and the conditions on the child. `Plan.links` lists the branches
depth first, and all that a statement or a layout holds for the tree is read off that list link by
link (`Link.joins`, `NodePlan.projections`, `NodePlan.binding`).

`Plan.Valid` says of every link that its parts are what the catalog and the request make of them.
It speaks of one link at a time; that aliases are different is a property of the whole plan and
stands apart, as `Plan.aliases`.
-/

set_option autoImplicit false

namespace NestedRead

/-! ## Plans -/

/-- What is decided about a node. -/
structure NodePlan where
  entity : Entity
  path : FieldPath
  tableAlias : String
  multiplicity : Option Multiplicity
  scalars : List String
  projections : List Projection

/-- What is decided about the way to a node. -/
structure EdgePlan where
  field : String
  args : RelationArgs
  relation : Relation
  kind : JoinKind
  throughAlias : Option String
  conditions : List Condition

mutual

/-- A node with its branches. -/
inductive Plan where
  | mk (node : NodePlan) (branches : List Branch)

/-- The way to a node, and the plan from there. -/
inductive Branch where
  | mk (edge : EdgePlan) (below : Plan)

end

namespace Plan

def node : Plan → NodePlan
  | .mk node _ => node

end Plan

/-- A branch with the nodes at its two ends. -/
structure Link where
  parent : NodePlan
  edge : EdgePlan
  child : NodePlan

namespace Plan

mutual

/-- The links of a plan, depth first. -/
def links : Plan → List Link
  | .mk node branches => linksOf node branches

def linksOf (parent : NodePlan) : List Branch → List Link
  | [] => []
  | .mk edge below :: rest => ⟨parent, edge, below.node⟩ :: (links below ++ linksOf parent rest)

end

/-- The nodes of a plan, depth first. -/
def nodes (plan : Plan) : List NodePlan := plan.node :: plan.links.map (·.child)

mutual

def selection : Plan → SelectionNode
  | .mk node branches => .mk node.entity.name node.path node.scalars (selectionsOf branches)

def selectionsOf : List Branch → List RelationSelection
  | [] => []
  | .mk edge below :: rest => .mk edge.field edge.args (selection below) :: selectionsOf rest

end

end Plan

/-- The conditions are those of a filter that may be left out. -/
def FilterScope.Conditions (scope : FilterScope) : Option FilterExpr → List Condition → Prop
  | none, cs => cs = []
  | some filter, cs => scope.conditions filter = .ok cs

/-! ## What a plan puts into a statement and a layout -/

def NodePlan.binding (n : NodePlan) : Binding :=
  { path := n.path, tableAlias := n.tableAlias, entity := n.entity.name,
    uniqueColumn := n.entity.uniqueColumn, multiplicity := n.multiplicity }

/-- The name of a table without its schema. -/
def Through.bareTable (t : Through) : String := (Text.piecesOf '.' t.table).getLastD t.table

namespace Link

/-- The aliases that a link takes: its child's, and that of the table in between. -/
def aliases (l : Link) : List String := l.child.tableAlias :: l.edge.throughAlias.toList

theorem child_mem_aliases (l : Link) : l.child.tableAlias ∈ l.aliases := List.mem_cons_self

/-- The join to the child, on a column of what stands to its left. -/
def childJoin (l : Link) (leftAlias left : String) : Join where
  kind := l.edge.kind
  table := l.child.entity.table
  tableAlias := l.child.tableAlias
  conditions := Join.keys l.edge.kind leftAlias left l.child.tableAlias l.edge.relation.toColumn
    ++ l.edge.conditions

/-- The join to the table in between. -/
def betweenJoin (l : Link) (through : Through) (between : String) : Join where
  kind := l.edge.kind
  table := through.table
  tableAlias := between
  conditions := Join.keys l.edge.kind l.parent.tableAlias l.edge.relation.fromColumn between
    through.fromColumn

def joins (l : Link) : List Join :=
  match l.edge.relation.through, l.edge.throughAlias with
  | some through, some throughAlias =>
    [{ kind := l.edge.kind, table := through.table, tableAlias := throughAlias,
       conditions := Join.keys l.edge.kind l.parent.tableAlias l.edge.relation.fromColumn
        throughAlias through.fromColumn },
     { kind := l.edge.kind, table := l.child.entity.table, tableAlias := l.child.tableAlias,
       conditions := Join.keys l.edge.kind throughAlias through.toColumn
        l.child.tableAlias l.edge.relation.toColumn ++ l.edge.conditions }]
  | _, _ =>
    [{ kind := l.edge.kind, table := l.child.entity.table, tableAlias := l.child.tableAlias,
       conditions := Join.keys l.edge.kind l.parent.tableAlias l.edge.relation.fromColumn
        l.child.tableAlias l.edge.relation.toColumn ++ l.edge.conditions }]

theorem joins_direct {l : Link} (hthrough : l.edge.relation.through = none) :
    l.joins = [l.childJoin l.parent.tableAlias l.edge.relation.fromColumn] := by
  rw [joins, hthrough]
  rfl

theorem joins_through {l : Link} {through : Through} {between : String}
    (hthrough : l.edge.relation.through = some through)
    (hbetween : l.edge.throughAlias = some between) :
    l.joins = [l.betweenJoin through between, l.childJoin between through.toColumn] := by
  rw [joins, hthrough, hbetween]
  rfl

/-- The clauses of a link: its joins and the columns of its child. -/
def clauses (l : Link) : List Clause :=
  l.joins.map Clause.join ++ [.select l.child.projections]

/-- The parts of a link are what the catalog and the request make of them. -/
structure Valid (catalog : Catalog) (separator : String) (l : Link) : Prop where
  relation : l.parent.entity.relation? l.edge.field = some l.edge.relation
  target : catalog.get? l.edge.relation.target = some l.child.entity
  kind : JoinKind.ofWord l.edge.args.joinType = .ok l.edge.kind
  conditions : JoinPlan.joinConditions l.edge.kind l.edge.field l.child.entity l.child.tableAlias
    l.edge.args.joinFilter = .ok l.edge.conditions
  through : l.edge.throughAlias.isSome = l.edge.relation.through.isSome
  between : ∀ t, l.edge.relation.through = some t →
    ∃ registry : AliasRegistry, l.edge.throughAlias = some (registry.choose t.bareTable)
  path : l.child.path = l.parent.path.child l.edge.field
  multiplicity : l.child.multiplicity = some l.edge.relation.multiplicity
  projections : l.child.entity.project l.child.tableAlias separator l.child.scalars
    = .ok l.child.projections
  tableAlias : ∃ registry : AliasRegistry, l.child.tableAlias = registry.choose l.child.entity.name

end Link

namespace Plan

/-- Every link of the plan is valid, and so is its root, which stands for a known entity. -/
structure Valid (catalog : Catalog) (separator : String) (plan : Plan) : Prop where
  entity : catalog.get? plan.node.entity.name = some plan.node.entity
  projections : plan.node.entity.project plan.node.tableAlias separator plan.node.scalars
    = .ok plan.node.projections
  links : ∀ l ∈ plan.links, l.Valid catalog separator

/-- All aliases of a plan: that of the root and those of the links. -/
def aliases (plan : Plan) : List String :=
  plan.node.tableAlias :: plan.links.flatMap Link.aliases

/-- The bindings of the nodes, depth first. -/
def bindings (plan : Plan) : List Binding := plan.nodes.map NodePlan.binding

/-- The plan is one for this tree under these settings. -/
structure For (catalog : Catalog) (config : Config) (tree : SelectionTree) (plan : Plan) :
    Prop where
  selection : plan.selection = tree.root
  valid : plan.Valid catalog config.aliasSeparator
  base : plan.node.tableAlias = config.baseAlias
  multiplicity : plan.node.multiplicity = none
  aliases : plan.aliases.Nodup

end Plan

/-! ## What belongs to the root alone -/

/-- What the arguments of the root become. -/
structure RootPlan where
  filters : List Term
  groupBy : List ColumnRef
  having : List Term
  orderBy : List (ColumnRef × SortDirection)
  limit : Option Nat
  offset : Option Nat
  distinct : Bool

namespace RootPlan

/-- The clauses of the root, in the order in which they are emitted. -/
def clauses (r : RootPlan) : List Clause :=
  r.filters.map Clause.filter ++ r.groupBy.map Clause.groupBy ++ r.having.map Clause.having
    ++ r.orderBy.map (fun item => Clause.orderBy item.1 item.2) ++ r.limit.toList.map Clause.limit
    ++ r.offset.toList.map Clause.offset ++ if r.distinct then [Clause.distinct] else []

/-- The terms are those of a filter that may be left out. -/
def FilterTerms (scope : FilterScope) : Option FilterExpr → List Term → Prop
  | none, terms => terms = []
  | some filter, terms => scope.terms filter = .ok terms

/-- Each part is what the arguments ask for. -/
structure Valid (config : Config) (entity : Entity) (args : RootArgs) (r : RootPlan) : Prop where
  filters : FilterTerms ⟨entity, config.baseAlias, .filter⟩ args.filter r.filters
  groupBy : List.Forall₂ (fun name column => entity.plainColumn config.baseAlias name = .ok column)
    args.groupBy r.groupBy
  having : FilterTerms ⟨entity, config.baseAlias, .having⟩ args.having r.having
  orderBy : List.Forall₂ (fun item ordering =>
      SortDirection.ofWord item.direction = .ok ordering.2 ∧
        entity.column config.baseAlias item.column = .ok ordering.1)
    args.orderBy r.orderBy
  limit : r.limit = (config.limit? args.limit).map (·.1)
  offset : r.offset = args.offset
  distinct : r.distinct = args.distinct

end RootPlan

/-! ## The whole statement -/

/-- The statement that a plan and the clauses of its root amount to. -/
def Plan.statement (plan : Plan) (root : RootPlan) : Statement where
  source := some (plan.node.entity.table, plan.node.tableAlias)
  projections := plan.nodes.flatMap (·.projections)
  joins := plan.links.flatMap Link.joins
  filters := root.filters
  groupBy := root.groupBy
  having := root.having
  orderBy := root.orderBy
  limit := root.limit
  offset := root.offset
  distinct := root.distinct

/-- The clauses of a statement that follows a plan. -/
def Plan.clauses (plan : Plan) (root : RootPlan) : List Clause :=
  .source plan.node.entity.table plan.node.tableAlias :: .select plan.node.projections ::
    (plan.links.flatMap Link.clauses ++ root.clauses)

end NestedRead
