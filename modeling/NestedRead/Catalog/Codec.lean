import NestedRead.Catalog.Definition
import NestedRead.Json.Record

/-!
# Catalog definitions in JSON

Reading a definition accepts every record in either of its two forms, and takes the defaults of
members that are missing. Writing gives every member, in a fixed order.
-/

set_option autoImplicit false

namespace NestedRead

open Json

/-! ## Reading -/

def ScalarType.ofJson? (value : Json) : Option ScalarType :=
  value.choice?.bind ScalarType.ofTag?

def Multiplicity.ofJson? (value : Json) : Option Multiplicity :=
  value.choice?.bind Multiplicity.ofWord?

def Through.ofJson? (value : Json) : Option Through := do
  let [table, fromColumn, toColumn] ← value.record? ["table", "from", "to"] | none
  return { table := ← required? string? table, fromColumn := ← required? string? fromColumn,
           toColumn := ← required? string? toColumn }

def Relation.ofJson? (value : Json) : Option Relation := do
  let [target, fromColumn, toColumn, through, multiplicity] ←
    value.record? ["target", "from", "to", "through", "multiplicity"] | none
  return { target := ← required? string? target
           fromColumn := ← required? string? fromColumn
           toColumn := ← required? string? toColumn
           through := ← optional? none (nullable? Through.ofJson?) through
           multiplicity := ← optional? .many Multiplicity.ofJson? multiplicity }

/-- A string is a scalar tag, and everything else a relation. -/
def FieldDefinition.ofJson? : Json → Option FieldDefinition
  | .string tag => some (.scalar tag)
  | value => (Relation.ofJson? value).map .relation

/-- Fields in ascending order of their names. -/
def EntityDefinition.fieldsOfJson? : Json → Option (List (String × FieldDefinition))
  | .object members => do
    let fields ← members.mapM fun (name, value) => do return (name, ← FieldDefinition.ofJson? value)
    return Ordered.ofPairs compare fields
  | _ => none

def EntityDefinition.ofJson? (value : Json) : Option EntityDefinition := do
  let [name, table, uniqueColumn, fields] ←
    value.record? ["name", "table", "unique_column", "fields"] | none
  return { name := ← required? string? name
           table := ← required? string? table
           uniqueColumn := ← optional? defaultUniqueColumn string? uniqueColumn
           fields := ← optional? [] fieldsOfJson? fields }

def CatalogDefinition.ofJson? (value : Json) : Option CatalogDefinition := do
  let [entities] ← value.record? ["entities"] | none
  return { entities := ← required? (list? EntityDefinition.ofJson?) entities }

/-! ## Writing -/

def Through.toJson (through : Through) : Json :=
  .object [("table", .string through.table), ("from", .string through.fromColumn),
    ("to", .string through.toColumn)]

def Relation.toJson (relation : Relation) : Json :=
  .object [("target", .string relation.target), ("from", .string relation.fromColumn),
    ("to", .string relation.toColumn),
    ("through", (relation.through.map Through.toJson).getD .null),
    ("multiplicity", .string relation.multiplicity.word)]

def FieldDefinition.toJson : FieldDefinition → Json
  | .scalar tag => .string tag
  | .relation r => r.toJson

def EntityDefinition.toJson (entity : EntityDefinition) : Json :=
  .object [("name", .string entity.name), ("table", .string entity.table),
    ("unique_column", .string entity.uniqueColumn),
    ("fields", .object (entity.fields.map fun (name, field) => (name, field.toJson)))]

def CatalogDefinition.toJson (catalog : CatalogDefinition) : Json :=
  .object [("entities", .array (catalog.entities.map EntityDefinition.toJson))]

end NestedRead
