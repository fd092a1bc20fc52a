import NestedRead.Json.Basic
import NestedRead.Number.Shortest
import NestedRead.Text.Pieces

/-!
# Writing a JSON document

Two layouts of the same text: `compact` without any blank, and `pretty` with two spaces a level
and one member or item a line. In a string only the quote, the backslash and the characters below
the space are escaped.
-/

set_option autoImplicit false

namespace NestedRead

/-- A float in a document has the shortest digits, a tie going to the even one; it has a
fractional digit, and from `1e16` on and below `1e-5` an exponent with its sign. -/
def Json.floatLayout : Number.Layout :=
  { tie := .toEven, pointAlways := true, range := some (-5, 15) }

/-- The text of a number in a document. -/
def Number.text : Number → String
  | .int n _ => toString n
  | .float x => Json.floatLayout.format x

namespace Json

/-- A hexadecimal digit, lower-case. -/
def hexDigit (n : Nat) : Char :=
  Nat.digitChar (n % 16)

/-- A character inside a string. -/
def escapeChar (c : Char) : List Char :=
  if c = '"' then ['\\', '"']
  else if c = '\\' then ['\\', '\\']
  else if c = '\x08' then ['\\', 'b']
  else if c = '\x0c' then ['\\', 'f']
  else if c = '\n' then ['\\', 'n']
  else if c = '\r' then ['\\', 'r']
  else if c = '\t' then ['\\', 't']
  else if c.toNat < 0x20 then ['\\', 'u', '0', '0', hexDigit (c.toNat / 16), hexDigit c.toNat]
  else [c]

def quoted (text : String) : String :=
  String.ofList ('"' :: text.toList.flatMap escapeChar ++ ['"'])

/-! ## Compact -/

mutual

/-- The value on one line, without blanks. -/
def compact : Json → String
  | .null => "null"
  | .bool true => "true"
  | .bool false => "false"
  | .number n => n.text
  | .string s => quoted s
  | .array items => "[" ++ Text.joined "," (compactItems items) ++ "]"
  | .object members => "\x7b" ++ Text.joined "," (compactMembers members) ++ "\x7d"

/-- The text of each item. -/
def compactItems : List Json → List String
  | [] => []
  | item :: rest => compact item :: compactItems rest

/-- The text of each member. -/
def compactMembers : List (String × Json) → List String
  | [] => []
  | (key, value) :: rest => (quoted key ++ ":" ++ compact value) :: compactMembers rest

end

/-! ## Indented -/

/-- The lines of a container at a level: one part a line, one step further in. -/
def block (level : Nat) (opening closing : String) (parts : List String) : String :=
  if parts.isEmpty then opening ++ closing
  else
    let pad (n : Nat) := String.ofList (List.replicate (2 * n) ' ')
    opening ++ "\n" ++ pad (level + 1) ++ Text.joined (",\n" ++ pad (level + 1)) parts
      ++ "\n" ++ pad level ++ closing

mutual

/-- The value with its containers opened out, the text standing at a level of indentation. -/
def prettyAt (level : Nat) : Json → String
  | .array items => block level "[" "]" (prettyItems (level + 1) items)
  | .object members => block level "\x7b" "\x7d" (prettyMembers (level + 1) members)
  | value => compact value

/-- The text of each item. -/
def prettyItems (level : Nat) : List Json → List String
  | [] => []
  | item :: rest => prettyAt level item :: prettyItems level rest

/-- The text of each member. -/
def prettyMembers (level : Nat) : List (String × Json) → List String
  | [] => []
  | (key, value) :: rest =>
    (quoted key ++ ": " ++ prettyAt level value) :: prettyMembers level rest

end

/-- The value over several lines. -/
def pretty (value : Json) : String := prettyAt 0 value

end Json
end NestedRead
