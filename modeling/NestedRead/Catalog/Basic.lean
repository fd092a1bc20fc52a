import NestedRead.Ordered

/-!
# Entities and the catalog

An entity is a logical record type backed by one table. Its fields are scalars, or relations that
name their target entity; the catalog resolves the name, so entities may refer to themselves and
to each other. The fields of an entity and the entities of a catalog stand in ascending order of
their names.
-/

set_option autoImplicit false

namespace NestedRead

/-! ## Scalar types -/

inductive ScalarType where
  | id
  | int
  | float
  | boolean
  | string
deriving DecidableEq, Repr

namespace ScalarType

/-- Whether values of the type can be added and ordered as numbers. -/
def isNumeric : ScalarType → Bool
  | .int | .float => true
  | .id | .boolean | .string => false

def tag : ScalarType → String
  | .id => "ID"
  | .int => "Int"
  | .float => "Float"
  | .boolean => "Boolean"
  | .string => "String"

def ofTag? : String → Option ScalarType
  | "ID" => some .id
  | "Int" => some .int
  | "Float" => some .float
  | "Boolean" => some .boolean
  | "String" => some .string
  | _ => none

/-- A tag is read back as the type that it stands for. -/
theorem ofTag?_tag (t : ScalarType) : ofTag? t.tag = some t := by
  cases t <;> rfl

end ScalarType

/-! ## Fields -/

/-- Whether a relation leads to a single object or to a list. -/
inductive Multiplicity where
  | one
  | many
deriving DecidableEq, Repr

def Multiplicity.word : Multiplicity → String
  | .one => "one"
  | .many => "many"

def Multiplicity.ofWord? : String → Option Multiplicity
  | "one" => some .one
  | "many" => some .many
  | _ => none

/-- The associative table of a many-to-many relation: its first column joins the parent, its
second one the child. -/
structure Through where
  table : String
  fromColumn : String
  toColumn : String
deriving DecidableEq, Repr

/-- A relation to the entity named `target`, joining a column of the parent's table to a column
of the child's, directly or through an associative table. -/
structure Relation where
  target : String
  fromColumn : String
  toColumn : String
  through : Option Through
  multiplicity : Multiplicity
deriving DecidableEq, Repr

/-- What a field holds. -/
inductive FieldKind where
  | scalar (type : ScalarType)
  | relation (relation : Relation)
deriving DecidableEq, Repr

/-! ## Entities -/

/-- A logical record type, its table, and the column that tells its records apart. -/
structure Entity where
  name : String
  table : String
  uniqueColumn : String
  fields : List (String × FieldKind)
deriving DecidableEq, Repr

namespace Entity

def field? (entity : Entity) (name : String) : Option FieldKind :=
  entity.fields.lookup name

/-- The type of a scalar column. The unique column counts as an `ID` even where the entity does
not list it. -/
def scalarType? (entity : Entity) (name : String) : Option ScalarType :=
  match entity.field? name with
  | some (.scalar type) => some type
  | some (.relation _) => none
  | none => if name = entity.uniqueColumn then some .id else none

/-- The relation that a field is. -/
def relation? (entity : Entity) (name : String) : Option Relation :=
  match entity.field? name with
  | some (.relation relation) => some relation
  | _ => none

end Entity

/-! ## The catalog -/

/-- Entities in ascending order of their names. -/
structure Catalog where
  entities : List Entity
deriving DecidableEq, Repr

namespace Catalog

def get? (catalog : Catalog) (name : String) : Option Entity :=
  catalog.entities.find? (·.name == name)

/-- The names of the entities, ascending. -/
def names (catalog : Catalog) : List String :=
  catalog.entities.map (·.name)

def size (catalog : Catalog) : Nat :=
  catalog.entities.length

def isEmpty (catalog : Catalog) : Bool :=
  catalog.entities.isEmpty

end Catalog
end NestedRead
