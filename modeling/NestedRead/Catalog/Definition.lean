import NestedRead.Catalog.Validation

/-!
# Catalog definitions

What a catalog document says, before its scalar tags are understood and its names are checked.
-/

set_option autoImplicit false

namespace NestedRead

/-- A field as it is defined: by a scalar tag or by a relation. -/
inductive FieldDefinition where
  | scalar (tag : String)
  | relation (relation : Relation)
deriving DecidableEq, Repr

/-- An entity as it is defined; the fields stand in ascending order of their names. -/
structure EntityDefinition where
  name : String
  table : String
  uniqueColumn : String
  fields : List (String × FieldDefinition)
deriving DecidableEq, Repr

/-- The entities in the order in which they are defined. -/
structure CatalogDefinition where
  entities : List EntityDefinition
deriving DecidableEq, Repr

def EntityDefinition.defaultUniqueColumn : String := "id"

namespace EntityDefinition

/-- The fields with their tags understood; the first unknown tag is an error. -/
def fieldKinds (entity : String) :
    List (String × FieldDefinition) → Except CatalogError (List (String × FieldKind))
  | [] => .ok []
  | (field, .scalar tag) :: rest =>
    match ScalarType.ofTag? tag with
    | some type => do
      let kinds ← fieldKinds entity rest
      return (field, .scalar type) :: kinds
    | none => .error (.unknownScalarType entity field tag)
  | (field, .relation relation) :: rest => do
    let kinds ← fieldKinds entity rest
    return (field, .relation relation) :: kinds

def toEntity (definition : EntityDefinition) : Except CatalogError Entity := do
  let fields ← fieldKinds definition.name definition.fields
  return { name := definition.name, table := definition.table,
           uniqueColumn := definition.uniqueColumn, fields }

end EntityDefinition

namespace CatalogDefinition

def toEntities : List EntityDefinition → Except CatalogError (List Entity)
  | [] => .ok []
  | definition :: rest => do
    let entity ← definition.toEntity
    let entities ← toEntities rest
    return entity :: entities

/-- The catalog that is defined: at least one entity, the tags of all entities, then their
names. -/
def toCatalog (definition : CatalogDefinition) : Except CatalogError Catalog :=
  if definition.entities.isEmpty then .error .noEntities
  else toEntities definition.entities >>= Catalog.ofEntities

end CatalogDefinition
end NestedRead
