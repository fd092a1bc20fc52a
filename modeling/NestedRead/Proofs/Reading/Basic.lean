import Mathlib.Data.List.Sort
import NestedRead.Proofs.Filter.Meaning
import NestedRead.Proofs.Query.Populated
import NestedRead.Proofs.Sql.Answer

/-!
# Nested readings of a database

What a selection tree asks of a database, said without a statement and without flat rows. A relation
leads from a row to the rows of its target whose columns are equal, over the rows of the table in
between where there is one, and that satisfy the filter on it. They stand in the order of their
ids. The object of a row has its projected columns and under each relation the objects of the rows
that it leads to; the reading of a tree is the objects of the rows of its root that the root's
filter is satisfied by, in the order of the table.

An id is an integer here, and no two rows of an entity's table have the same (`Database.Keyed`).
-/

set_option autoImplicit false

namespace NestedRead

/-- The id of a row of an entity's table, where it is an integer. -/
def Entity.idOf (e : Entity) (t : Tuple) : Int :=
  match t e.uniqueColumn with
  | .number (.int n _) => n
  | _ => 0

/-- In the table of every entity the unique column has integers, all of them different. -/
structure Database.Keyed (db : Database) (catalog : Catalog) : Prop where
  ids : ∀ e ∈ catalog.entities, ∀ t ∈ db e.table,
    ∃ n inRange, t e.uniqueColumn = .number (.int n inRange)
  distinct : ∀ e ∈ catalog.entities, ((db e.table).map e.idOf).Nodup

/-- A tree whose relations are all to be left joined, that asks for columns alone and no relation of
the name of a unique column, and whose root has a filter at most. -/
structure SelectionTree.AsksPlainly (catalog : Catalog) (tree : SelectionTree) : Prop where
  left : ∀ s ∈ tree.root.nodes, ∀ r ∈ s.relations, JoinKind.ofWord r.args.joinType = .ok .left
  columns : ∀ s ∈ tree.root.nodes, ∀ name ∈ s.scalars, Text.cutAt? aggregateMark name = none
  spares : ∀ s ∈ tree.root.nodes, s.SparesUniqueColumn catalog
  args : tree.args = { filter := tree.args.filter }

namespace Dialect

variable (d : Dialect) (db : Database)

/-- Columns have the values of one row, whatever its alias. -/
def of (t : Tuple) : Interpretation where
  value
    | .qualified _ column => t column
    | .raw _ => .null
  compare := d.compare

/-- A row satisfies a filter that may be left out. -/
def admits (e : Entity) (filter : Option FilterExpr) (t : Tuple) : Bool :=
  match filter with
  | none => true
  | some filter => filter.meaning (d.of t) ⟨e, e.name, .filter⟩ = .yes

/-- A relation leads from one row to another. -/
def leads (relation : Relation) (parent child : Tuple) : Bool :=
  match relation.through with
  | none => d.equal (parent relation.fromColumn) (child relation.toColumn)
  | some through => (db through.table).any fun t =>
    d.equal (parent relation.fromColumn) (t through.fromColumn) &&
      d.equal (t through.toColumn) (child relation.toColumn)

/-- The rows that a relation leads to and that satisfy the filter on it, in the order of ids. -/
def related (relation : Relation) (target : Entity) (filter : Option FilterExpr)
    (parent : Tuple) : List Tuple :=
  ((db target.table).filter fun t => d.leads db relation parent t && d.admits target filter t)
    |>.insertionSort fun a b => target.idOf a ≤ target.idOf b

variable (catalog : Catalog)

mutual

def object : SelectionNode → Tuple → Json
  | .mk name _ scalars relations, t =>
    match catalog.get? name with
    | some e =>
      .object ((e.projectedNames scalars).map (fun column => (column, t column))
        ++ members e relations t)
    | none => .null

def members (e : Entity) : List RelationSelection → Tuple → Json.Members
  | [], _ => []
  | .mk field args child :: rest, t =>
    match e.relation? field, catalog.get? child.entity with
    | some relation, some target =>
      (field, relation.multiplicity.value
        ((d.related db relation target args.joinFilter t).map (object child)))
        :: members e rest t
    | _, _ => members e rest t

end

/-- The objects that a tree asks for. -/
def reading (tree : SelectionTree) : List Json :=
  match catalog.get? tree.root.entity with
  | some e =>
    ((db e.table).filter (d.admits e tree.args.filter)).map (d.object db catalog tree.root)
  | none => []

/-! ## Related rows -/

variable {d db catalog}

theorem mem_related {relation : Relation} {target : Entity} {filter : Option FilterExpr}
    {parent t : Tuple} : t ∈ d.related db relation target filter parent ↔
      t ∈ db target.table ∧ d.leads db relation parent t = true ∧ d.admits target filter t = true
    := by
  rw [related, List.mem_insertionSort, List.mem_filter, Bool.and_eq_true]

/-- Related rows stand strictly in the order of their ids. -/
theorem pairwise_related {relation : Relation} {target : Entity} {filter : Option FilterExpr}
    {parent : Tuple} (h : ((db target.table).map target.idOf).Nodup) :
    (d.related db relation target filter parent).Pairwise
      fun a b => target.idOf a < target.idOf b := by
  have hsorted := List.pairwise_insertionSort (fun a b : Tuple => target.idOf a ≤ target.idOf b)
    ((db target.table).filter fun t => d.leads db relation parent t && d.admits target filter t)
  have hids : ((d.related db relation target filter parent).map target.idOf).Nodup := by
    refine (((List.perm_insertionSort _ _).map target.idOf).nodup_iff).mpr ?_
    exact h.sublist (List.filter_sublist.map target.idOf)
  refine (hsorted.and (List.pairwise_map.mp hids)).imp fun {a b} hab => ?_
  exact lt_of_le_of_ne hab.1 hab.2

end Dialect
end NestedRead
