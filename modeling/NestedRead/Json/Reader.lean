import NestedRead.Json.Lexer

/-!
# Reading a JSON document

A document is first read as it is **written**: repeated keys are all kept, numbers are literals,
and nesting has no bound. `Written.value?` then gives the value. It refuses nesting deeper than
`maxDepth`, a number outside the finite range and a string that spells no text, and of a
repeated key it keeps the last value at the first place. A reader that skips a part of a
document uses the written form, since the limits hold for values alone.
-/

set_option autoImplicit false

namespace NestedRead.Json

/-- A document as it is written. A string or key that spells no text is `none`. -/
inductive Written where
  | null
  | bool (value : Bool)
  | number (literal : Number.Literal)
  | string (text : Option String)
  | array (items : List Written)
  | object (members : List (Option String × Written))

namespace Written

/-! ## From tokens -/

/-- A container that is still open, with what it holds so far in reverse; in `member` a key
waits for its value. -/
inductive Frame where
  | array (items : List Written)
  | object (members : List (Option String × Written))
  | member (members : List (Option String × Written)) (key : Option String)

/-- What may come next. -/
inductive Expectation where
  | value
  | valueOrClose
  | keyOrClose
  | key
  | colon
  | commaOrClose
  | finish (document : Written)

/-- The open containers, innermost first, and what may come next. -/
structure Builder where
  frames : List Frame
  expect : Expectation

namespace Builder

/-- A complete value takes its place in the innermost open container. -/
def place (value : Written) : List Frame → Builder
  | [] => ⟨[], .finish value⟩
  | .array items :: outer => ⟨.array (value :: items) :: outer, .commaOrClose⟩
  | .member members key :: outer => ⟨.object ((key, value) :: members) :: outer, .commaOrClose⟩
  | .object members :: outer => ⟨.object members :: outer, .commaOrClose⟩

/-- The token that starts a value. -/
def startValue? (frames : List Frame) : Token → Option Builder
  | .openArray => some ⟨.array [] :: frames, .valueOrClose⟩
  | .openObject => some ⟨.object [] :: frames, .keyOrClose⟩
  | .null => some (place .null frames)
  | .bool b => some (place (.bool b) frames)
  | .number l => some (place (.number l) frames)
  | .string s => some (place (.string s) frames)
  | _ => none

/-- The token that closes the innermost container. -/
def close? : List Frame → Token → Option Builder
  | .array items :: outer, .closeArray => some (place (.array items.reverse) outer)
  | .object members :: outer, .closeObject => some (place (.object members.reverse) outer)
  | _, _ => none

/-- A key of the innermost object. -/
def key? : List Frame → Token → Option Builder
  | .object members :: outer, .string key => some ⟨.member members key :: outer, .colon⟩
  | _, _ => none

def step (b : Builder) (token : Token) : Option Builder :=
  match b.expect, token with
  | .value, _ => startValue? b.frames token
  | .valueOrClose, .closeArray => close? b.frames token
  | .valueOrClose, _ => startValue? b.frames token
  | .keyOrClose, .closeObject => close? b.frames token
  | .keyOrClose, _ => key? b.frames token
  | .key, _ => key? b.frames token
  | .colon, .colon => some ⟨b.frames, .value⟩
  | .commaOrClose, .comma =>
    match b.frames with
    | .array _ :: _ => some ⟨b.frames, .value⟩
    | .object _ :: _ => some ⟨b.frames, .key⟩
    | _ => none
  | .commaOrClose, _ => close? b.frames token
  | _, _ => none

end Builder

/-- The one document that a text holds. -/
def ofText? (text : String) : Option Written := do
  let tokens ← tokens? text.toList
  let last ← tokens.foldlM Builder.step ⟨[], .value⟩
  match last.expect with
  | .finish document => some document
  | _ => none

/-! ## The value -/

mutual

/-- The value of a document whose containers may nest `depth` levels deep. -/
def value? (depth : Nat) : Written → Option Json
  | .null => some .null
  | .bool b => some (.bool b)
  | .number l => l.number?.map .number
  | .string s => s.map .string
  | .array items =>
    match depth with
    | 0 => none
    | depth + 1 => (values? depth items).map .array
  | .object members =>
    match depth with
    | 0 => none
    | depth + 1 => (pairs? depth members).map fun pairs => .object (ofPairs pairs)

/-- The values of a list of documents. -/
def values? (depth : Nat) : List Written → Option (List Json)
  | [] => some []
  | item :: rest => do
    let value ← value? depth item
    let values ← values? depth rest
    return value :: values

/-- The members as they are written, repeated keys included. -/
def pairs? (depth : Nat) : List (Option String × Written) → Option Members
  | [] => some []
  | (key, item) :: rest => do
    let key ← key
    let value ← value? depth item
    let pairs ← pairs? depth rest
    return (key, value) :: pairs

end

end Written

/-- The number of levels that arrays and objects may nest in a document. -/
def maxDepth : Nat := 127

/-- The value of a JSON document. -/
def ofText? (text : String) : Option Json :=
  (Written.ofText? text).bind (Written.value? maxDepth)

end NestedRead.Json
