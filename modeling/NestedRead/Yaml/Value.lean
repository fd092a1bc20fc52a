import NestedRead.Yaml.Node
import NestedRead.Yaml.Scalar

/-!
# What nodes stand for

A reader that knows what it expects takes a node as that: `Node.text?`, `Node.items?` and
`Node.record?` accept a scalar as text whatever its form, and a left-out collection as an empty
one.

A reader that has to choose among several shapes looks at a `Value` instead, where scalars have
their forms. A record is then a mapping or a sequence of its members in order, and an integer key
stands for the member at that place.
-/

set_option autoImplicit false

namespace NestedRead.Yaml

namespace Node

/-! ## Known shapes -/

/-- The text of a scalar. -/
def text? : Node → Option String
  | .scalar text _ => some text
  | _ => none

/-- The items of a sequence. -/
def items? (node : Node) : Option (List Node) :=
  match node with
  | .sequence items => some items
  | _ => if node.isEmpty then some [] else none

/-- The entries of a mapping whose keys are scalars. -/
def entries? (node : Node) : Option (List (String × Node)) :=
  match node with
  | .mapping entries => entries.mapM fun (key, value) => key.text?.map (·, value)
  | _ => if node.isEmpty then some [] else none

/-- The members of a record with these member names. Naming one of them twice is an error, other
entries do not matter. -/
def record? (names : List String) (node : Node) : Option (List (Option Node)) := do
  let entries ← node.entries?
  names.mapM fun name =>
    match entries.filter (·.1 == name) with
    | [] => some none
    | [(_, value)] => some (some value)
    | _ => none

/-- An unsigned 64-bit integer, or nothing. -/
def optionalNat? : Node → Option (Option Nat)
  | .scalar text true =>
    if text.isEmpty || Form.isNullWord text then some none
    else (Form.unsigned? text).map some
  | _ => none

end Node

/-! ## Values -/

/-- What a node stands for where several shapes are possible. -/
inductive Value where
  | null
  | bool (value : Bool)
  | integer (negative : Bool) (magnitude : Nat)
  | float
  | text (text : String)
  | sequence (items : List Value)
  | mapping (entries : List (Value × Value))
deriving Inhabited

/-- The value of a scalar. An integer of more than 64 bits has none. -/
def Value.ofScalar? (text : String) (plain : Bool) : Option Value :=
  if plain then
    match Form.ofText text with
    | .null => some .null
    | .bool b => some (.bool b)
    | .integer negative n => if Form.fits 64 (negative, n) then some (.integer negative n) else none
    | .float => some .float
    | .text => some (.text text)
  else some (.text text)

mutual

def Node.value? : Node → Option Value
  | .scalar text plain => Value.ofScalar? text plain
  | .sequence items => (Node.values? items).map .sequence
  | .mapping entries => (Node.valueEntries? entries).map .mapping

def Node.values? : List Node → Option (List Value)
  | [] => some []
  | item :: rest => do return (← item.value?) :: (← Node.values? rest)

def Node.valueEntries? : List (Node × Node) → Option (List (Value × Value))
  | [] => some []
  | (key, value) :: rest => do
    return ((← key.value?), (← value.value?)) :: (← Node.valueEntries? rest)

end

namespace Value

def text? : Value → Option String
  | .text s => some s
  | _ => none

/-- The place of the member that a key stands for among the names. -/
def place? (names : List String) : Value → Option Nat
  | .text name => some (names.idxOf name)
  | .integer false n => some n
  | _ => none

/-- The members of a record with these member names, as a mapping that names none of them twice
or as a sequence that may stop early. -/
def record? (names : List String) : Value → Option (List (Option Value))
  | .mapping entries => do
    let places ← entries.mapM fun (key, value) => (key.place? names).map (·, value)
    (List.range names.length).mapM fun place =>
      match places.filter (·.1 == place) with
      | [] => some none
      | [(_, value)] => some (some value)
      | _ => none
  | .sequence items =>
    if items.length ≤ names.length then
      some (items.map some ++ List.replicate (names.length - items.length) none)
    else none
  | _ => none

/-- The place of a choice without content among the names. -/
def choice? (names : List String) : Value → Option Nat
  | .text name => names.idxOf? name
  | .mapping [(key, .null)] => (key.place? names).filter (· < names.length)
  | _ => none

end Value
end NestedRead.Yaml
