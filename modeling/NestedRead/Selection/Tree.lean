import NestedRead.Catalog.Basic
import NestedRead.Request.Basic
import NestedRead.Selection.Arguments

/-!
# Selection trees

A selection tree is a request checked against the catalog: every node knows its entity, its path
from the root, the scalar fields that are asked for and the relations below it. The arguments of
the request belong to the root, those of a relation to the edge that leads to its node.

Repeated selections are merged on the way. A scalar counts once. Occurrences of a relation become
one, at the place of the first, with their selections one after the other; their arguments have
to agree unless they are empty. Names that start with two underscores never reach the tree.
-/

set_option autoImplicit false

namespace NestedRead

mutual

/-- A node of the tree. -/
inductive SelectionNode where
  | mk (entity : String) (path : FieldPath) (scalars : List String)
      (relations : List RelationSelection)

/-- A relation field with its arguments and the node that it leads to. -/
inductive RelationSelection where
  | mk (field : String) (args : RelationArgs) (node : SelectionNode)

end

namespace SelectionNode

def entity : SelectionNode → String
  | .mk entity _ _ _ => entity

def path : SelectionNode → FieldPath
  | .mk _ path _ _ => path

def scalars : SelectionNode → List String
  | .mk _ _ scalars _ => scalars

def relations : SelectionNode → List RelationSelection
  | .mk _ _ _ relations => relations

end SelectionNode

namespace RelationSelection

def field : RelationSelection → String
  | .mk field _ _ => field

def args : RelationSelection → RelationArgs
  | .mk _ args _ => args

def node : RelationSelection → SelectionNode
  | .mk _ _ node => node

end RelationSelection

/-- A request checked against a catalog. -/
structure SelectionTree where
  root : SelectionNode
  args : RootArgs

/-! ## Merging -/

/-- A relation that is asked for, its occurrences merged. -/
structure RequestedRelation where
  field : String
  relation : Relation
  args : Json.Members
  selections : List FieldSelection

/-- What the selections on one node ask for. -/
structure RequestedFields where
  scalars : List String := []
  relations : List RequestedRelation := []

namespace RequestedRelation

/-- A further occurrence of the relation. -/
def merge (requested : RequestedRelation) (s : FieldSelection) :
    Except CompileError RequestedRelation :=
  let selections := requested.selections ++ s.selections
  if requested.args.isEmpty then .ok { requested with args := s.args, selections }
  else if s.args.isEmpty || (Json.object s.args).same (.object requested.args) then
    .ok { requested with selections }
  else .error (.malformedSelection (.conflictingArguments s.name))

end RequestedRelation

namespace RequestedFields

/-- An occurrence of a relation, merged into an earlier one where there is one. -/
def addRelation (relation : Relation) (s : FieldSelection) :
    List RequestedRelation → Except CompileError (List RequestedRelation)
  | [] => .ok [⟨s.name, relation, s.args, s.selections⟩]
  | requested :: rest =>
    if requested.field = s.name then do return (← requested.merge s) :: rest
    else do return requested :: (← addRelation relation s rest)

/-- Whether a field is left to the caller and never read. -/
def isIntrospection (name : String) : Bool :=
  "__".toList.isPrefixOf name.toList

/-- One more selection. What is no relation counts as a scalar, whether the entity has it or
not. -/
def add (entity : Entity) (fields : RequestedFields) (s : FieldSelection) :
    Except CompileError RequestedFields :=
  if isIntrospection s.name then .ok fields
  else match entity.relation? s.name with
    | some relation => do
      return { fields with relations := ← addRelation relation s fields.relations }
    | none =>
      if fields.scalars.contains s.name then .ok fields
      else .ok { fields with scalars := fields.scalars ++ [s.name] }

/-- What a list of selections asks for. -/
def ofSelections (entity : Entity) (fields : RequestedFields) :
    List FieldSelection → Except CompileError RequestedFields
  | [] => .ok fields
  | s :: rest => do
    let fields ← add entity fields s
    ofSelections entity fields rest

end RequestedFields

/-! ## Building -/

namespace FieldSelection

mutual

/-- How many levels of selections a selection has below it. -/
def height : FieldSelection → Nat
  | ⟨_, _, selections⟩ => heights selections

/-- How many levels a list of selections has. -/
def heights : List FieldSelection → Nat
  | [] => 0
  | s :: rest => max (s.height + 1) (heights rest)

end

end FieldSelection

namespace SelectionNode

/-- The node for selections on an entity. The first argument bounds the levels below the node:
merging keeps the height of a selection, so a bound above the height is never used up. -/
def build (catalog : Catalog) : Nat → String → FieldPath → List FieldSelection →
    Traced Notice CompileError SelectionNode
  | 0, name, path, _ => pure (.mk name path [] [])
  | levels + 1, name, path, selections =>
    match catalog.get? name with
    | none => Traced.fail (.unknownEntity name)
    | some entity => do
      let requested ← Traced.ofExcept (RequestedFields.ofSelections entity {} selections)
      let relations ← Traced.each (fun r : RequestedRelation =>
          if (catalog.get? r.relation.target).isNone then
            Traced.fail (.unknownTarget name r.field r.relation.target)
          else do
            let node ← build catalog levels r.relation.target (path.child r.field) r.selections
            let args ← RelationArgs.ofMembers r.args
            return RelationSelection.mk r.field args node)
        requested.relations
      return .mk name path requested.scalars relations

end SelectionNode

namespace SelectionTree

/-- The tree for a selection on an entity: first its fields, then the arguments of the root. -/
def build (catalog : Catalog) (entity : String) (selection : FieldSelection) :
    Traced Notice CompileError SelectionTree :=
  if (catalog.get? entity).isNone then Traced.fail (.unknownEntity entity)
  else do
    let root ← SelectionNode.build catalog (FieldSelection.heights selection.selections + 1)
      entity .root selection.selections
    let args ← RootArgs.ofMembers selection.args
    return { root, args }

def ofRequest (catalog : Catalog) (request : Request) : Traced Notice CompileError SelectionTree :=
  build catalog request.entity request.selection

end SelectionTree

/-! ## Edges -/

namespace SelectionNode

mutual

/-- Parent and child path of every relation below a node, depth first. -/
def edges : SelectionNode → List (FieldPath × FieldPath)
  | .mk _ path _ relations => edgesFrom path relations

/-- The same for some of the relations of the node at a path. -/
def edgesFrom (parent : FieldPath) : List RelationSelection → List (FieldPath × FieldPath)
  | [] => []
  | .mk _ _ node :: rest => (parent, node.path) :: (edges node ++ edgesFrom parent rest)

end

end SelectionNode

/-- Parent and child path of every relation of the tree, depth first. -/
def SelectionTree.edges (tree : SelectionTree) : List (FieldPath × FieldPath) :=
  tree.root.edges

end NestedRead
