import NestedRead.Request.Basic
import NestedRead.Json.Reader

/-!
# Requests as documents

In a document, a request or a selection that names one of its members twice is refused, while
arguments keep the last value of a repeated key. What a record does not know is skipped as it is
written, without the limits on values; inside an entry of a selection everything is read as
values first, so the limits hold there.
-/

set_option autoImplicit false

namespace NestedRead

open Json (Written)

/-- The members of a record by name: unknown ones are left out, and a repeated one is refused.
A key that spells no text is refused as well. -/
def Json.Written.known? (names : List String) :
    List (Option String × Written) → Option (List (String × Written))
  | [] => some []
  | (none, _) :: _ => none
  | (some key, value) :: rest => do
    let members ← known? names rest
    if names.contains key then
      if members.any (·.1 == key) then none else some ((key, value) :: members)
    else some members

namespace FieldSelection

def memberNames : List String := ["name", "args", "selections"]

mutual

/-- Whether no selection in an entry names one of its members twice. -/
def entryUnrepeated : Written → Bool
  | .object members =>
    (Json.Written.known? memberNames members).isSome && membersUnrepeated members
  | .array (_ :: _ :: selections :: _) => selectionsUnrepeated selections
  | _ => true

/-- The same for the selections among the members of an entry. -/
def membersUnrepeated : List (Option String × Written) → Bool
  | [] => true
  | (key, value) :: rest =>
    (if key = some "selections" then selectionsUnrepeated value else true)
      && membersUnrepeated rest

/-- The same for a list of entries. -/
def selectionsUnrepeated : Written → Bool
  | .array items => entriesUnrepeated items
  | _ => true

/-- The same for each entry. -/
def entriesUnrepeated : List Written → Bool
  | [] => true
  | item :: rest => entryUnrepeated item && entriesUnrepeated rest

end

/-- The value of a member of a selection, which stands `depth` levels above the deepest one. -/
def memberValue? (depth : Nat) (key : String) (value : Written) : Option Json :=
  if key = "selections" && !selectionsUnrepeated value then none else value.value? depth

/-- The value of a selection as far as it matters. -/
def documentValue? (depth : Nat) : Written → Option Json
  | .object members => do
    let known ← Json.Written.known? memberNames members
    let values ← known.mapM fun (key, value) => do return (key, ← memberValue? depth key value)
    return .object values
  | .array items => do
    if !entryUnrepeated (.array items) then none else Written.value? (depth + 1) (.array items)
  | value => Written.value? depth value

end FieldSelection

namespace Request

/-- The value of a request as far as it matters. -/
def documentValue? : Written → Option Json
  | .object members => do
    let known ← Json.Written.known? ["entity", "selection"] members
    let values ← known.mapM fun (key, value) => do
      if key = "selection" then return (key, ← FieldSelection.documentValue? (Json.maxDepth - 2) value)
      else return (key, ← value.value? (Json.maxDepth - 1))
    return .object values
  | .array [entity, selection] => do
    return .array [← entity.value? (Json.maxDepth - 1),
      ← FieldSelection.documentValue? (Json.maxDepth - 2) selection]
  | _ => none

/-- The request that a document holds. Why a document holds none is not told. -/
def ofText? (text : String) : Option Request := do
  let written ← Written.ofText? text
  let value ← documentValue? written
  (ofJson value).toOption

end Request
end NestedRead
