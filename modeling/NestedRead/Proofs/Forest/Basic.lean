import NestedRead.Proofs.Query.Populated

/-!
# Forests of records

A record has fields, and under the name of each relation the records that it leads to. A forest is
what a nested result stands for: one record for each root, each followed down the selection. It is
flattened by giving a record one row for every way to pick a row of each of its relations; a
relation that leads nowhere is picked as one row of nulls.

Nothing keeps two places of a forest from having the same id. `SelectionTree.Coherent` asks that
they hold the same record then, which is what makes a forest one that rows can be read back into:
all rows that show an id speak of one record.
-/

set_option autoImplicit false

namespace NestedRead

/-- A record with the records that its relations lead to. -/
inductive Record where
  | mk (fields : Json.Members) (related : List (String × List Record))

namespace Record

def fields : Record → Json.Members
  | .mk fields _ => fields

/-- The records under a relation. -/
def kids (r : Record) (field : String) : List Record :=
  match r with
  | .mk _ related => (related.lookup field).getD []

def idAt? (r : Record) (column : String) : Option EntityId :=
  (Json.get? r.fields column).bind EntityId.ofJson?

end Record

/-! ## Nested objects -/

/-- How many objects a relation of an entity leads to. -/
def Catalog.multiplicity (catalog : Catalog) (entity field : String) : Multiplicity :=
  (((catalog.get? entity).bind (·.relation? field)).map (·.multiplicity)).getD .many

namespace SelectionNode

mutual

/-- The nested object of a record at a node. -/
def toJson (catalog : Catalog) : SelectionNode → Record → Json
  | .mk entity _ _ relations, r => .object (r.fields ++ relationsToJson catalog entity relations r)

/-- A member for each relation: an array of objects, or for a relation to one the object or null. -/
def relationsToJson (catalog : Catalog) (entity : String) :
    List RelationSelection → Record → Json.Members
  | [], _ => []
  | .mk field _ child :: rest, r =>
    (field, (catalog.multiplicity entity field).value ((r.kids field).map (toJson catalog child)))
      :: relationsToJson catalog entity rest r

end

/-! ## Rows -/

/-- The columns of a node for a record, or for none, which makes them null. -/
def columns (catalog : Catalog) (layout : Layout) (node : SelectionNode) (r : Option Record) :
    Json.Members :=
  match catalog.get? node.entity, layout.byPath? node.path with
  | some entity, some b =>
    (match r with
      | some r => r.fields
      | none => (entity.projectedNames node.scalars).map (·, .null)).map
        fun (field, value) => (layout.key b.tableAlias field, value)
  | _, _ => []

mutual

/-- The rows of a record: its columns with a row of each of its relations, in every combination. -/
def flatten (catalog : Catalog) (layout : Layout) :
    SelectionNode → Option Record → List Json.Members
  | .mk entity path scalars relations, r =>
    (flattenRelations catalog layout relations r).map
      (columns catalog layout (.mk entity path scalars relations) r ++ ·)

/-- The combinations of rows of several relations. -/
def flattenRelations (catalog : Catalog) (layout : Layout) :
    List RelationSelection → Option Record → List Json.Members
  | [], _ => [[]]
  | .mk field _ child :: rest, r =>
    ((orNone ((r.map (·.kids field)).getD [])).flatMap (flatten catalog layout child)).flatMap
      fun row => (flattenRelations catalog layout rest r).map (row ++ ·)

end

end SelectionNode

/-! ## Which forests -/

namespace SelectionTree

/-- A record stands somewhere in a forest, at this node of the tree. -/
inductive Occurs (tree : SelectionTree) (forest : List Record) : SelectionNode → Record → Prop
  | root {r : Record} (h : r ∈ forest) : Occurs tree forest tree.root r
  | kid {s : SelectionNode} {r k : Record} {relation : RelationSelection}
      (inside : Occurs tree forest s r) (hrelation : relation ∈ s.relations)
      (hkid : k ∈ r.kids relation.field) : Occurs tree forest relation.node k

/-- Every record of a forest has the shape of its node: a value for each projected name, an id, and
under each relation records in the order of their ids, at most one where it leads to one. -/
structure Shapes (catalog : Catalog) (tree : SelectionTree) (forest : List Record) : Prop where
  names : ∀ s r, tree.Occurs forest s r → ∀ e, catalog.get? s.entity = some e →
    (r.fields.map Prod.fst).Perm (e.projectedNames s.scalars)
  id : ∀ s r, tree.Occurs forest s r → ∀ e, catalog.get? s.entity = some e →
    (r.idAt? e.uniqueColumn).isSome = true
  one : ∀ s r, tree.Occurs forest s r → ∀ relation ∈ s.relations,
    catalog.multiplicity s.entity relation.field = .one → (r.kids relation.field).length ≤ 1
  ascending : ∀ s r, tree.Occurs forest s r → ∀ relation ∈ s.relations, ∀ e,
    catalog.get? relation.node.entity = some e → (r.kids relation.field).Pairwise fun a b =>
      ∃ i j, a.idAt? e.uniqueColumn = some i ∧ b.idAt? e.uniqueColumn = some j ∧
        EntityId.cmp i j = .lt

/-- Records at one path with one id are the same record, and the roots have different ids. -/
structure Coherent (catalog : Catalog) (tree : SelectionTree) (forest : List Record) : Prop where
  same : ∀ s r, tree.Occurs forest s r → ∀ s' r', tree.Occurs forest s' r' → s.path = s'.path →
    ∀ e, catalog.get? s.entity = some e → r.idAt? e.uniqueColumn = r'.idAt? e.uniqueColumn →
      r = r'
  roots : ∀ e, catalog.get? tree.root.entity = some e →
    (forest.map (·.idAt? e.uniqueColumn)).Nodup

end SelectionTree
end NestedRead
