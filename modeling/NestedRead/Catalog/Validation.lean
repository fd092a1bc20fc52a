import NestedRead.Catalog.Basic
import NestedRead.Catalog.Error
import NestedRead.Identifier

/-!
# Which entities form a catalog

The names of an entity are checked in a fixed order: the entity, its table, its unique column,
then field by field the field's name and the columns and tables of its relation. After the names
of an entity comes the check that its name is new. Relation targets are looked up last, when
every entity is known.
-/

set_option autoImplicit false

namespace NestedRead

def checkIdentifier (place : NamePlace) (name : String) : Except CatalogError Unit :=
  if Identifier.isPlain name then .ok () else .error (.invalidIdentifier name place)

def checkTable (place : NamePlace) (name : String) : Except CatalogError Unit :=
  if Identifier.isTable name then .ok () else .error (.invalidIdentifier name place)

namespace Relation

/-- The columns of a relation, and the table and columns between its two ends. -/
def check (place : NamePlace) (relation : Relation) : Except CatalogError Unit := do
  checkIdentifier place relation.fromColumn
  checkIdentifier place relation.toColumn
  match relation.through with
  | none => return ()
  | some through =>
    checkTable place through.table
    checkIdentifier place through.fromColumn
    checkIdentifier place through.toColumn

end Relation

namespace Entity

/-- The names of one field after the other. -/
def checkFields (entity : String) : List (String × FieldKind) → Except CatalogError Unit
  | [] => .ok ()
  | (field, kind) :: rest => do
    checkIdentifier (.field entity) field
    match kind with
    | .scalar _ => pure ()
    | .relation relation => relation.check (.relation entity field)
    checkFields entity rest

/-- All names of an entity. -/
def check (entity : Entity) : Except CatalogError Unit := do
  checkIdentifier .entityName entity.name
  checkTable (.table entity.name) entity.table
  checkIdentifier (.uniqueColumn entity.name) entity.uniqueColumn
  checkFields entity.name entity.fields

/-- The targets of the relations, each among the known names. -/
def checkTargets (known : List String) (entity : String) :
    List (String × FieldKind) → Except CatalogError Unit
  | [] => .ok ()
  | (field, .relation relation) :: rest =>
    if known.contains relation.target then checkTargets known entity rest
    else .error (.unknownTarget entity field relation.target)
  | (_, .scalar _) :: rest => checkTargets known entity rest

end Entity

namespace Catalog

/-- Entity after entity: its names, and that no earlier entity has its name. -/
def checkEntities (seen : List String) : List Entity → Except CatalogError Unit
  | [] => .ok ()
  | entity :: rest => do
    entity.check
    if seen.contains entity.name then .error (.duplicateEntity entity.name)
    else checkEntities (entity.name :: seen) rest

/-- The relation targets of every entity. -/
def checkTargets (known : List String) : List Entity → Except CatalogError Unit
  | [] => .ok ()
  | entity :: rest => do
    Entity.checkTargets known entity.name entity.fields
    checkTargets known rest

/-- The catalog of these entities, whose order does not matter. -/
def ofEntities (entities : List Entity) : Except CatalogError Catalog := do
  checkEntities [] entities
  let catalog : Catalog := ⟨Ordered.sort (fun a b => compare a.name b.name) entities⟩
  checkTargets catalog.names catalog.entities
  return catalog

end Catalog
end NestedRead
