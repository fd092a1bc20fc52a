import NestedRead.Rows.Index
import NestedRead.Selection.Tree

/-!
# Nested results

The objects of the root ids, in the order in which they first appeared, each with its relations
filled in: an array of the children in ascending order of their ids, or for a relation to one the
first child or null. Sibling relations are filled in independently of each other.
-/

set_option autoImplicit false

namespace NestedRead

open RowIndex (Reading)

namespace RowIndex

mutual

/-- The object of an id at a node, with the relations below it. -/
def nest (index : RowIndex) (layout : Layout) (id : EntityId) : SelectionNode → Reading Json
  | .mk _ path _ relations =>
    match layout.byPath? path with
    | none => Traced.fail (.missingBinding path.text)
    | some b => do
      let object := (index.object? b.tableAlias id).getD []
      let object ← nestRelations index layout id object relations
      return .object object

def nestRelations (index : RowIndex) (layout : Layout) (id : EntityId) (object : Json.Members) :
    List RelationSelection → Reading Json.Members
  | [] => pure object
  | r :: rest => do
    let (field, value) ← nestRelation index layout id r
    nestRelations index layout id (Json.put object field value) rest

/-- The value of a relation. -/
def nestRelation (index : RowIndex) (layout : Layout) (id : EntityId) :
    RelationSelection → Reading (String × Json)
  | .mk field _ child => do
    let ids := index.children child.path id
    match ((layout.byPath? child.path).bind (·.multiplicity)).getD .many with
    | .one =>
      if ids.length > 1 then Traced.emit (.severalMatches child.path id ids.length)
      match ids with
      | [] => return (field, .null)
      | first :: _ => do
        let value ← nest index layout first child
        return (field, value)
    | .many => do
      let values ← Traced.each (fun childId => nest index layout childId child) ids
      return (field, .array values)

end

end RowIndex

namespace SelectionTree

/-- The nested result that rows hold for a tree. -/
def nest (tree : SelectionTree) (layout : Layout) (rows : List Json) : Reading (List Json) :=
  if rows.isEmpty then pure []
  else do
    let index ← RowIndex.ofRows layout tree.edges rows
    let roots ← Traced.each (fun id => index.nest layout id tree.root) index.rootIds
    Traced.emit (.nested rows.length roots.length tree.root.entity)
    return roots

end SelectionTree
end NestedRead
