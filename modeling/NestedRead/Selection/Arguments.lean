import NestedRead.Selection.Filter
import NestedRead.Json.Record
import NestedRead.Notice
import NestedRead.Traced

/-!
# Arguments of selections

The root of a selection takes a filter, grouping, ordering and pagination; a relation takes a
join kind, a join condition, and an ordering and pagination of its own. Arguments are read in the
order in which they are written, and the first bad one is the error. An argument that is not
known is ignored with a notice.
-/

set_option autoImplicit false

namespace NestedRead

/-- A column to order by. The direction is kept as it is written. -/
structure OrderItem where
  column : String
  direction : Option String
deriving DecidableEq, Repr

/-- The arguments of the root. -/
structure RootArgs where
  filter : Option FilterExpr := none
  distinct : Bool := false
  groupBy : List String := []
  having : Option FilterExpr := none
  orderBy : List OrderItem := []
  limit : Option Nat := none
  offset : Option Nat := none

/-- The arguments of a relation. The join kind is kept as it is written. -/
structure RelationArgs where
  joinFilter : Option FilterExpr := none
  joinType : Option String := none
  orderBy : List OrderItem := []
  limit : Option Nat := none
  offset : Option Nat := none

/-! ## Items to order by -/

namespace OrderItem

open Json (DecodeError)

/-- A direction, null standing for none. -/
def directionOf : Json → Except DecodeError (Option String)
  | .null => .ok none
  | value => value.expectString.map some

/-- The members of an item in the order in which they are written. The direction has two names,
of which only one may occur; a direction of `none` has not been given yet. -/
def partsOf (column : Option String) (direction : Option (Option String)) :
    List (String × Json) → Except DecodeError (Option String × Option (Option String))
  | [] => .ok (column, direction)
  | (key, value) :: rest => do
    if key = "column" then
      let column ← value.expectString
      partsOf (some column) direction rest
    else if key = "direction" ∨ key = "order" then
      if direction.isSome then .error (.duplicateField "direction")
      else
        let direction ← directionOf value
        partsOf column (some direction) rest
    else partsOf column direction rest

/-- An item, written as a record. -/
def ofJson : Json → Except DecodeError OrderItem
  | .object members => do
    match ← partsOf none none members with
    | (some column, direction) => return ⟨column, direction.getD none⟩
    | (none, _) => .error (.missingField "column")
  | .array [] => .error (.tooShort 0 "OrderByItem" 2)
  | .array [column] => do
    return ⟨← column.expectString, none⟩
  | .array (column :: direction :: more) => do
    let column ← column.expectString
    let direction ← directionOf direction
    if more.isEmpty then return ⟨column, direction⟩
    else .error (.tooLong (more.length + 2))
  | value => .error (.wrongShape value (.record "OrderByItem"))

end OrderItem

/-! ## Values of arguments -/

namespace Arguments

/-- A flag, null standing for no. -/
def flag (name : String) : Json → Except CompileError Bool
  | .null => .ok false
  | .bool b => .ok b
  | value => .error (.malformedSelection (.notBoolean name value))

/-- A number of rows, null standing for none. -/
def count (name : String) (value : Json) : Except CompileError (Option Nat) :=
  match value with
  | .null => .ok none
  | _ => match value.nat? with
    | some n => .ok (some n)
    | none => .error (.malformedSelection (.notCount name value))

def itemsOf {α : Type} (read : Json → Except Json.DecodeError α) :
    List Json → Except Json.DecodeError (List α)
  | [] => .ok []
  | item :: rest => do
    let a ← read item
    let more ← itemsOf read rest
    return a :: more

/-- A list, null standing for the empty one. -/
def list {α : Type} (read : Json → Except Json.DecodeError α) (name : String) (value : Json) :
    Except CompileError (List α) :=
  match value with
  | .null => .ok []
  | _ => (value.expectSequence >>= itemsOf read).mapError fun error =>
    .malformedSelection (.malformedList name error)

end Arguments

/-- The arguments with one more of them read, or nothing where the argument is not known. -/
def RootArgs.set? (args : RootArgs) (name : String) (value : Json) :
    Option (Except CompileError RootArgs) :=
  match name with
  | "where" => some do return { args with filter := ← FilterExpr.ofOptional value }
  | "distinct" => some do return { args with distinct := ← Arguments.flag name value }
  | "groupBy" => some do return { args with groupBy := ← Arguments.list Json.expectString name value }
  | "having" => some do return { args with having := ← FilterExpr.ofOptional value }
  | "orderBy" => some do return { args with orderBy := ← Arguments.list OrderItem.ofJson name value }
  | "limit" => some do return { args with limit := ← Arguments.count name value }
  | "offset" => some do return { args with offset := ← Arguments.count name value }
  | _ => none

/-- The arguments with one more of them read, or nothing where the argument is not known. A join
kind that is no text is an error here; what the text means is decided later. -/
def RelationArgs.set? (args : RelationArgs) (name : String) (value : Json) :
    Option (Except CompileError RelationArgs) :=
  match name with
  | "on" => some do return { args with joinFilter := ← FilterExpr.ofOptional value }
  | "joinType" => some <| match value with
    | .null => .ok { args with joinType := none }
    | .string kind => .ok { args with joinType := some kind }
    | _ => .error (.invalidJoinType value.compact)
  | "orderBy" => some do return { args with orderBy := ← Arguments.list OrderItem.ofJson name value }
  | "limit" => some do return { args with limit := ← Arguments.count name value }
  | "offset" => some do return { args with offset := ← Arguments.count name value }
  | _ => none

/-- Arguments read one after the other by `set?`; an unknown one only leaves a notice. -/
def Arguments.read {α : Type} (set? : α → String → Json → Option (Except CompileError α))
    (ignored : String → Notice) (args : α) : Json.Members → Traced Notice CompileError α
  | [] => pure args
  | (name, value) :: rest =>
    match set? args name value with
    | some next => do
      let args ← Traced.ofExcept next
      Arguments.read set? ignored args rest
    | none => do
      Traced.emit (ignored name)
      Arguments.read set? ignored args rest

/-- The arguments of the root. -/
def RootArgs.ofMembers (members : Json.Members) : Traced Notice CompileError RootArgs :=
  Arguments.read RootArgs.set? .rootArgumentIgnored {} members

/-- The arguments of a relation. -/
def RelationArgs.ofMembers (members : Json.Members) : Traced Notice CompileError RelationArgs :=
  Arguments.read RelationArgs.set? .relationArgumentIgnored {} members

end NestedRead
