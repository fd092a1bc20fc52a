import NestedRead.Json.DecodeError

/-!
# Read requests

A request names the entity to start from and selects fields of it. A selected field has a name,
arguments and selections of its own, and one without arguments and selections may be written as
its bare name. `Request.ofJson` reads a request and `Request.toJson` writes it with every member
spelled out.
-/

set_option autoImplicit false

namespace NestedRead

/-- A selected field. -/
structure FieldSelection where
  name : String
  args : Json.Members
  selections : List FieldSelection
deriving Inhabited

/-- A selection of fields of the records of an entity. -/
structure Request where
  entity : String
  selection : FieldSelection
deriving Inhabited

namespace FieldSelection

def leaf (name : String) : FieldSelection := ⟨name, [], []⟩

/-! ## Reading -/

/-- The members of a selection that have been read. -/
structure Parts where
  name : Option String := none
  args : Option Json.Members := none
  selections : Option (List FieldSelection) := none

/-- The selection that the members form; only the name has to be there. -/
def Parts.finish (parts : Parts) : Except Json.DecodeError FieldSelection :=
  match parts.name with
  | some name => .ok ⟨name, parts.args.getD [], parts.selections.getD []⟩
  | none => .error (.missingField "name")

mutual

/-- A selection, written as a record. -/
def ofJson : Json → Except Json.DecodeError FieldSelection
  | .object members => do
    let parts ← partsOf {} members
    parts.finish
  | .array [] => .error (.tooShort 0 "FieldSelection" 3)
  | .array [name] => do
    return ⟨← name.expectString, [], []⟩
  | .array [name, args] => do
    return ⟨← name.expectString, ← args.expectMap, []⟩
  | .array (name :: args :: selections :: more) => do
    let name ← name.expectString
    let args ← args.expectMap
    let selections ← selectionsOf selections
    if more.isEmpty then return ⟨name, args, selections⟩
    else .error (.tooLong (more.length + 3))
  | value => .error (.wrongShape value (.record "FieldSelection"))

/-- The members of a selection in the order in which they are written. -/
def partsOf (parts : Parts) : List (String × Json) → Except Json.DecodeError Parts
  | [] => .ok parts
  | (key, value) :: rest => do
    if key = "name" then
      let name ← value.expectString
      partsOf { parts with name } rest
    else if key = "args" then
      let args ← value.expectMap
      partsOf { parts with args } rest
    else if key = "selections" then
      let selections ← selectionsOf value
      partsOf { parts with selections } rest
    else partsOf parts rest

def selectionsOf : Json → Except Json.DecodeError (List FieldSelection)
  | .array items => entriesOf items
  | value => .error (.wrongShape value .sequence)

/-- Each entry is a bare name or a selection; why it is neither is not told. -/
def entriesOf : List Json → Except Json.DecodeError (List FieldSelection)
  | [] => .ok []
  | .string name :: rest => do
    return leaf name :: (← entriesOf rest)
  | item :: rest =>
    match ofJson item with
    | .ok selection => do return selection :: (← entriesOf rest)
    | .error _ => .error (.noVariant "Entry")

end

/-! ## Writing -/

mutual

/-- A selection with all its members. -/
def toJson : FieldSelection → Json
  | ⟨name, args, selections⟩ =>
    .object [("name", .string name), ("args", .object args),
      ("selections", .array (toJsons selections))]

def toJsons : List FieldSelection → List Json
  | [] => []
  | selection :: rest => selection.toJson :: toJsons rest

end

end FieldSelection

namespace Request

/-- The members of a request that have been read. -/
structure Parts where
  entity : Option String := none
  selection : Option FieldSelection := none

/-- The members of a request in the order in which they are written. -/
def partsOf (parts : Parts) : List (String × Json) → Except Json.DecodeError Parts
  | [] => .ok parts
  | (key, value) :: rest => do
    if key = "entity" then
      let entity ← value.expectString
      partsOf { parts with entity } rest
    else if key = "selection" then
      let selection ← FieldSelection.ofJson value
      partsOf { parts with selection } rest
    else partsOf parts rest

/-- The request that the members form. -/
def Parts.finish (parts : Parts) : Except Json.DecodeError Request :=
  match parts.entity, parts.selection with
  | some entity, some selection => .ok ⟨entity, selection⟩
  | none, _ => .error (.missingField "entity")
  | some _, none => .error (.missingField "selection")

/-- A request, written as a record. -/
def ofJson : Json → Except Json.DecodeError Request
  | .object members => do
    let parts ← partsOf {} members
    parts.finish
  | .array [] => .error (.tooShort 0 "ReadRequest" 2)
  | .array [entity] => do
    let _ ← entity.expectString
    .error (.tooShort 1 "ReadRequest" 2)
  | .array (entity :: selection :: more) => do
    let entity ← entity.expectString
    let selection ← FieldSelection.ofJson selection
    if more.isEmpty then return ⟨entity, selection⟩
    else .error (.tooLong (more.length + 2))
  | value => .error (.wrongShape value (.record "ReadRequest"))

/-- A request with all its members. -/
def toJson (request : Request) : Json :=
  .object [("entity", .string request.entity), ("selection", request.selection.toJson)]

end Request
end NestedRead
