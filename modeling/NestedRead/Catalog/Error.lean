/-!
# Why a catalog is refused
-/

set_option autoImplicit false

namespace NestedRead

/-- Where a name stands in a catalog. -/
inductive NamePlace where
  | entityName
  | table (entity : String)
  | uniqueColumn (entity : String)
  | field (entity : String)
  | relation (entity name : String)
deriving DecidableEq, Repr

/-- How a place is called in a message. -/
def NamePlace.text : NamePlace → String
  | .entityName => "entity name"
  | .table entity => s!"table of entity `{entity}`"
  | .uniqueColumn entity => s!"unique column of entity `{entity}`"
  | .field entity => s!"field of entity `{entity}`"
  | .relation entity name => s!"relation `{entity}.{name}`"

/-- Why a catalog is refused. -/
inductive CatalogError where
  | duplicateEntity (entity : String)
  | unknownTarget (entity field target : String)
  | invalidIdentifier (name : String) (place : NamePlace)
  | unknownScalarType (entity field tag : String)
  | unreadable (path reason : String)
  | malformed (reason : String)
  | noEntities
deriving DecidableEq, Repr

def CatalogError.message : CatalogError → String
  | .duplicateEntity entity => s!"Entity `{entity}` is defined more than once"
  | .unknownTarget entity field target =>
    s!"Invalid relation type `{target}` detected in entity `{entity}` (field `{field}`)"
  | .invalidIdentifier name place => s!"Invalid identifier `{name}` ({place.text})"
  | .unknownScalarType entity field tag =>
    s!"Unknown scalar type `{tag}` for field `{field}` in entity `{entity}`"
  | .unreadable path reason => s!"Failed to read configuration file: {path}: {reason}"
  | .malformed reason => s!"Failed to parse configuration: {reason}"
  | .noEntities => "Invalid configuration: no entities defined"

end NestedRead
