import NestedRead.Catalog.Load
import NestedRead.Files
import NestedRead.Yaml.Value

/-!
# Catalog documents

A catalog document lists its entities in YAML. Names are taken as they are written, so `5` and
`true` are names; a field definition may have one of two shapes, so there a scalar has to be a
text to be a tag.
-/

set_option autoImplicit false

namespace NestedRead

open Yaml (Node Value)

/-! ## Field definitions -/

/-- The text of a member that has to be there. -/
def Yaml.Value.requiredText? (member : Option Value) : Option String :=
  member >>= Value.text?

def Through.ofValue? (value : Value) : Option Through := do
  let [table, fromColumn, toColumn] ← value.record? ["table", "from", "to"] | none
  return { table := ← Value.requiredText? table
           fromColumn := ← Value.requiredText? fromColumn
           toColumn := ← Value.requiredText? toColumn }

def Multiplicity.ofValue? (value : Value) : Option Multiplicity := do
  match ← value.choice? [Multiplicity.one.word, Multiplicity.many.word] with
  | 0 => return .one
  | _ => return .many

def Relation.ofValue? (value : Value) : Option Relation := do
  let [target, fromColumn, toColumn, through, multiplicity] ←
    value.record? ["target", "from", "to", "through", "multiplicity"] | none
  return { target := ← Value.requiredText? target
           fromColumn := ← Value.requiredText? fromColumn
           toColumn := ← Value.requiredText? toColumn
           through := ← match through with
             | none | some .null => some none
             | some value => (Through.ofValue? value).map some
           multiplicity := ← match multiplicity with
             | none => some .many
             | some value => Multiplicity.ofValue? value }

/-- How deeply the collections of a field definition may be nested: 128 levels, of which the
document, the list of entities, the entity and its fields take four. -/
def FieldDefinition.depthLimit : Nat := 124

/-- A text is a scalar tag, and everything else a relation. -/
def FieldDefinition.ofNode? (node : Node) : Option FieldDefinition := do
  if depthLimit < node.depth then none
  else match ← node.value? with
    | .text tag => return .scalar tag
    | value => return .relation (← Relation.ofValue? value)

/-! ## Entities -/

/-- Fields in ascending order of their names; the last definition of a repeated name counts. -/
def EntityDefinition.fieldsOfNode? (node : Node) : Option (List (String × FieldDefinition)) := do
  let entries ← node.entries?
  let fields ← entries.mapM fun (name, definition) =>
    (FieldDefinition.ofNode? definition).map (name, ·)
  return Ordered.ofPairs compare fields

def EntityDefinition.ofNode? (node : Node) : Option EntityDefinition := do
  let [name, table, uniqueColumn, fields] ←
    node.record? ["name", "table", "unique_column", "fields"] | none
  return { name := ← name >>= Node.text?
           table := ← table >>= Node.text?
           uniqueColumn := ← match uniqueColumn with
             | none => some defaultUniqueColumn
             | some node => node.text?
           fields := ← match fields with
             | none => some []
             | some node => fieldsOfNode? node }

/-! ## Catalogs -/

namespace CatalogDefinition

def ofNode? (root : Node) : Option CatalogDefinition := do
  let [some entities] ← root.record? ["entities"] | none
  return { entities := ← (← entities.items?).mapM EntityDefinition.ofNode? }

def ofDocument (text : String) : Except CatalogError CatalogDefinition :=
  match Node.ofText? text >>= ofNode? with
  | some definition => .ok definition
  | none => .error (.malformed "not a catalog document")

def ofFile (path : String) : Except FileError String → Except CatalogError CatalogDefinition
  | .ok text => ofDocument text
  | .error error => .error (.unreadable path error.message)

end CatalogDefinition

def Catalog.ofFile (path : String) (contents : Except FileError String) :
    Traced Notice CatalogError Catalog := do
  let definition ← Traced.ofExcept (CatalogDefinition.ofFile path contents)
  let catalog ← definition.load
  Traced.emit (.catalogLoaded catalog.size path)
  return catalog

end NestedRead
