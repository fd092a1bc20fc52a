import NestedRead.Keyed
import NestedRead.Notice
import NestedRead.Query.Layout
import NestedRead.Rows.Error
import NestedRead.Traced

/-!
# The index of flat rows

A join repeats the columns of a record in every row that it takes part in. The index collects
them: for every alias and id one object of the columns seen with it, for every relation and parent
id the ids of its children in ascending order, and the ids of the root in the order in which they
first appeared.

An alias whose id is null has no record in the row, and neither has one without any column there;
but where a row carries a column of an alias, it has to carry the unique column too. Of a value
that differs between rows the first one stays, with a notice.
-/

set_option autoImplicit false

namespace NestedRead

/-- Everything that the rows say. -/
structure RowIndex where
  /-- For every alias the object of each id. -/
  pool : List (String × List (EntityId × Json.Members)) := []
  /-- For the path of every child the children of each parent id. -/
  adjacency : List (FieldPath × List (EntityId × List EntityId)) := []
  rootIds : List EntityId := []

namespace RowIndex

def object? (index : RowIndex) (tableAlias : String) (id : EntityId) : Option Json.Members :=
  (index.pool.lookup tableAlias).bind (·.lookup id)

/-- The ids of the children that a parent has at a path, ascending. -/
def children (index : RowIndex) (childPath : FieldPath) (parent : EntityId) : List EntityId :=
  ((index.adjacency.lookup childPath).bind (·.lookup parent)).getD []

abbrev Reading (α : Type) := Traced Notice RowError α

/-! ## One row -/

/-- A column of a row: the alias and the field that its key names, and its value. -/
structure Column where
  tableAlias : String
  field : String
  value : Json

/-- The columns of a row in their order. Every key has to name an alias of the layout. -/
def columns (layout : Layout) : Json.Members → Reading (List Column)
  | [] => pure []
  | (key, value) :: rest =>
    match layout.split? key with
    | none => Traced.fail (.unaliasedColumn key layout.separator)
    | some (tableAlias, field) =>
      if (layout.byAlias? tableAlias).isNone then do
        Traced.emit (.columnUnplaced key)
        Traced.fail (.unknownAlias tableAlias key)
      else do
        let more ← columns layout rest
        return ⟨tableAlias, field, value⟩ :: more

/-- The fields and values of the columns of one alias. -/
def fieldsOf (tableAlias : String) (columns : List Column) : Json.Members :=
  (columns.filter (·.tableAlias == tableAlias)).map fun c => (c.field, c.value)

/-- The id that a row has for an alias. Where `required` does not hold, the unique column may be
missing as well, which means that there is no id. -/
def readId (layout : Layout) (row : Json.Members) (position : Nat) (b : Binding)
    (required : Bool) : Reading (Option EntityId) :=
  let key := layout.key b.tableAlias b.uniqueColumn
  match Json.get? row key with
  | none =>
    if required then do
      Traced.emit (.uniqueColumnMissing key position)
      Traced.fail (.missingUniqueColumn b.tableAlias key position)
    else pure none
  | some value =>
    match EntityId.ofJson value with
    | .ok id => pure id
    | .error found => Traced.fail (.invalidId b.tableAlias found)

/-! ## Objects -/

/-- An object with the fields of one more row. The value that a field has already stays. -/
def mergeFields (object : Json.Members) : Json.Members → Json.Members
  | [] => object
  | (field, value) :: rest =>
    match Json.get? object field with
    | none => mergeFields (Json.put object field value) rest
    | some _ => mergeFields object rest

/-- The values of one more row that differ from what an object has already. -/
def disagreements (tableAlias : String) (id : EntityId) (object : Json.Members) :
    Json.Members → List Notice
  | [] => []
  | (field, value) :: rest =>
    match Json.get? object field with
    | none => disagreements tableAlias id (Json.put object field value) rest
    | some kept =>
      let more := disagreements tableAlias id object rest
      if kept.same value then more else .rowsDisagree tableAlias field id kept value :: more

/-- The pool with the fields that one row has for an id. -/
def upsert (pool : List (String × List (EntityId × Json.Members))) (tableAlias : String)
    (id : EntityId) (fields : Json.Members) : List (String × List (EntityId × Json.Members)) :=
  Keyed.alter tableAlias (fun objects =>
    Keyed.alter id (fun object => mergeFields (object.getD []) fields) (objects.getD [])) pool

/-- The ids that a row has for the bindings, and the pool with their fields. An alias that is
bound twice has the later id; `ids` holds the newest first. -/
def readBindings (layout : Layout) (rootAlias : String) (row : Json.Members) (position : Nat)
    (columns : List Column) (index : RowIndex) (ids : List (String × EntityId)) :
    List Binding → Reading (RowIndex × List (String × EntityId))
  | [] => pure (index, ids)
  | b :: rest => do
    let fields := fieldsOf b.tableAlias columns
    let required := !fields.isEmpty || b.tableAlias == rootAlias
    match ← readId layout row position b required with
    | none => readBindings layout rootAlias row position columns index ids rest
    | some id =>
      let known := (index.object? b.tableAlias id).getD []
      Traced.emitAll (disagreements b.tableAlias id known fields)
      let index := { index with pool := upsert index.pool b.tableAlias id fields }
      readBindings layout rootAlias row position columns index ((b.tableAlias, id) :: ids) rest

/-! ## Links -/

/-- The bindings at the two ends of a relation. -/
structure Edge where
  parent : Binding
  child : Binding

def bindingAt (layout : Layout) (path : FieldPath) : Except RowError Binding :=
  match layout.byPath? path with
  | some b => .ok b
  | none => .error (.missingBinding path.text)

/-- The bindings of each pair of a parent and a child path. -/
def edges (layout : Layout) : List (FieldPath × FieldPath) → Except RowError (List Edge)
  | [] => .ok []
  | (parent, child) :: rest => do
    let parent ← bindingAt layout parent
    let child ← bindingAt layout child
    let more ← edges layout rest
    return ⟨parent, child⟩ :: more

def link (childPath : FieldPath) (parent child : EntityId)
    (adjacency : List (FieldPath × List (EntityId × List EntityId))) :
    List (FieldPath × List (EntityId × List EntityId)) :=
  Keyed.alter childPath (fun byParent =>
    Keyed.alter parent (fun children => Ordered.insertNew EntityId.cmp child (children.getD []))
      (byParent.getD [])) adjacency

def linkEdges (ids : List (String × EntityId)) (index : RowIndex) : List Edge → RowIndex
  | [] => index
  | e :: rest =>
    match ids.lookup e.parent.tableAlias, ids.lookup e.child.tableAlias with
    | some parent, some child =>
      linkEdges ids { index with adjacency := link e.child.path parent child index.adjacency } rest
    | _, _ => linkEdges ids index rest

/-- The roots with the one of a further row, unless it has been seen. -/
def addRoot (rootIds : List EntityId) : Option EntityId → List EntityId
  | none => rootIds
  | some id => if rootIds.contains id then rootIds else rootIds ++ [id]

/-! ## All rows -/

def addRow (layout : Layout) (rootAlias : String) (edges : List Edge) (index : RowIndex)
    (position : Nat) (row : Json) : Reading RowIndex :=
  match row with
  | .object members => do
    let columns ← columns layout members
    let (index, ids) ←
      readBindings layout rootAlias members position columns index [] layout.bindings
    let index := { index with rootIds := addRoot index.rootIds (ids.lookup rootAlias) }
    return linkEdges ids index edges
  | _ => Traced.fail (.notObject position)

/-- The index with further rows, the first of which stands at a position. -/
def addRows (layout : Layout) (rootAlias : String) (edges : List Edge) (index : RowIndex)
    (position : Nat) : List Json → Reading RowIndex
  | [] => pure index
  | row :: rest => do
    let index ← addRow layout rootAlias edges index position row
    addRows layout rootAlias edges index (position + 1) rest

/-- The index of rows under a layout, with the relations between its paths. -/
def ofRows (layout : Layout) (relations : List (FieldPath × FieldPath)) (rows : List Json) :
    Reading RowIndex :=
  match layout.root? with
  | none => Traced.fail (.missingBinding FieldPath.root.text)
  | some root => do
    let edges ← Traced.ofExcept (edges layout relations)
    addRows layout root.tableAlias edges {} 0 rows

end RowIndex
end NestedRead
