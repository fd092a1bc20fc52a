import NestedRead.Yaml.Token

/-!
# YAML documents as trees

A node is a scalar, a sequence or a mapping. What is left out between two marks (the value of
`a:`, an entry that is only a dash) is the empty plain scalar. A mapping keeps its entries as
they were written, repeated keys included; what a repeated key means is for its reader to say.

A text holds one document. `Node.ofText?` answers none for a text that is no YAML of the supported
kind and for a text with several documents, and the empty scalar for a text without any.
-/

set_option autoImplicit false

namespace NestedRead.Yaml

/-- A part of a document. -/
inductive Node where
  /-- A scalar, and whether it was written without quotes. -/
  | scalar (text : String) (plain : Bool)
  | sequence (items : List Node)
  | mapping (entries : List (Node × Node))
deriving Inhabited

namespace Node

/-- What stands where nothing was written. -/
def empty : Node := .scalar "" true

/-- Nothing was written. -/
def isEmpty : Node → Bool
  | .scalar "" true => true
  | _ => false

mutual

/-- How deeply collections are nested. -/
def depth : Node → Nat
  | .scalar _ _ => 0
  | .sequence items => depthOfItems items + 1
  | .mapping entries => depthOfEntries entries + 1

def depthOfItems : List Node → Nat
  | [] => 0
  | item :: rest => max item.depth (depthOfItems rest)

def depthOfEntries : List (Node × Node) → Nat
  | [] => 0
  | (key, value) :: rest => max (max key.depth value.depth) (depthOfEntries rest)

end

/-! ## Reading tokens

A reader takes tokens from the front of a list and answers with those behind its node. The fuel
bounds the depth of the calls: between two of them that take a token stand at most two that take
none. -/

mutual

/-- The node that starts here. A sequence that is the value of a block mapping need not be
indented, which is what `dashes` says. -/
def read? (fuel : Nat) (dashes : Bool) (tokens : List Token) : Option (Node × List Token) :=
  match fuel with
  | 0 => none
  | fuel + 1 =>
    match tokens with
    | .scalar text plain :: rest => some (.scalar text plain, rest)
    | .flowSequenceStart :: .flowSequenceEnd :: rest => some (.sequence [], rest)
    | .flowSequenceStart :: rest => do
      let (items, rest) ← flowItems? fuel rest
      return (.sequence items, rest)
    | .flowMappingStart :: .flowMappingEnd :: rest => some (.mapping [], rest)
    | .flowMappingStart :: rest => do
      let (entries, rest) ← flowEntries? fuel rest
      return (.mapping entries, rest)
    | .blockSequenceStart :: rest => do
      let (items, rest) ← blockItems? fuel [.blockEntry, .blockEnd] rest
      let .blockEnd :: rest := rest | none
      return (.sequence items, rest)
    | .blockMappingStart :: rest => do
      let (entries, rest) ← blockEntries? fuel rest
      return (.mapping entries, rest)
    | .blockEntry :: _ =>
      if dashes then do
        let (items, rest) ← blockItems? fuel [.blockEntry, .key, .value, .blockEnd] tokens
        return (.sequence items, rest)
      else none
    | _ => none

/-- The node that starts here, or the empty one in front of one of the stops. -/
def readUnless? (fuel : Nat) (dashes : Bool) (stops : List Token) (tokens : List Token) :
    Option (Node × List Token) :=
  match fuel with
  | 0 => none
  | fuel + 1 =>
    match tokens with
    | [] => none
    | t :: _ => if stops.contains t then some (.empty, tokens) else read? fuel dashes tokens

/-- The items of a block sequence, each behind its dash. -/
def blockItems? (fuel : Nat) (stops : List Token) (tokens : List Token) :
    Option (List Node × List Token) :=
  match fuel with
  | 0 => none
  | fuel + 1 =>
    match tokens with
    | .blockEntry :: rest => do
      let (item, rest) ← readUnless? fuel false stops rest
      let (items, rest) ← blockItems? fuel stops rest
      return (item :: items, rest)
    | _ => some ([], tokens)

/-- The entries of a block mapping and the end of it. -/
def blockEntries? (fuel : Nat) (tokens : List Token) : Option (List (Node × Node) × List Token) :=
  match fuel with
  | 0 => none
  | fuel + 1 =>
    match tokens with
    | .blockEnd :: rest => some ([], rest)
    | .key :: rest => do
      let (key, rest) ← readUnless? fuel true [.key, .value, .blockEnd] rest
      let (value, rest) ← match rest with
        | .value :: rest => readUnless? fuel true [.key, .value, .blockEnd] rest
        | _ => some (.empty, rest)
      let (entries, rest) ← blockEntries? fuel rest
      return ((key, value) :: entries, rest)
    | _ => none

/-- One item and the others of a flow sequence, and the end of it. A key makes the item a mapping
with this one entry. -/
def flowItems? (fuel : Nat) (tokens : List Token) : Option (List Node × List Token) :=
  match fuel with
  | 0 => none
  | fuel + 1 => do
    let (item, rest) ← match tokens with
      | .key :: rest => do
        let (key, rest) ← flowKey? fuel rest
        let (value, rest) ← match rest with
          | .value :: rest => readUnless? fuel false [.flowEntry, .flowSequenceEnd] rest
          | _ => some (.empty, rest)
        pure (.mapping [(key, value)], rest)
      | _ => read? fuel false tokens
    match rest with
    | .flowSequenceEnd :: rest => return ([item], rest)
    | .flowEntry :: .flowSequenceEnd :: rest => return ([item], rest)
    | .flowEntry :: rest => do
      let (items, rest) ← flowItems? fuel rest
      return (item :: items, rest)
    | _ => none

/-- The key of a mapping that is an item of a flow sequence. An empty one takes the token behind
it along. -/
def flowKey? (fuel : Nat) (tokens : List Token) : Option (Node × List Token) :=
  match fuel with
  | 0 => none
  | fuel + 1 =>
    match tokens with
    | [] => none
    | t :: rest =>
      if [Token.value, .flowEntry, .flowSequenceEnd].contains t then some (.empty, rest)
      else read? fuel false tokens

/-- One entry and the others of a flow mapping, and the end of it. -/
def flowEntries? (fuel : Nat) (tokens : List Token) : Option (List (Node × Node) × List Token) :=
  match fuel with
  | 0 => none
  | fuel + 1 => do
    let (entry, rest) ← match tokens with
      | .key :: rest => do
        let (key, rest) ← readUnless? fuel false [.value, .flowEntry, .flowMappingEnd] rest
        let (value, rest) ← match rest with
          | .value :: rest => readUnless? fuel false [.flowEntry, .flowMappingEnd] rest
          | _ => some (.empty, rest)
        pure ((key, value), rest)
      | _ => do
        let (key, rest) ← read? fuel false tokens
        pure ((key, .empty), rest)
    match rest with
    | .flowMappingEnd :: rest => return ([entry], rest)
    | .flowEntry :: .flowMappingEnd :: rest => return ([entry], rest)
    | .flowEntry :: rest => do
      let (entries, rest) ← flowEntries? fuel rest
      return (entry :: entries, rest)
    | _ => none

end

/-! ## Documents -/

/-- The node of the only document. A start mark may come before it, behind which it may be
missing, and end marks may follow. -/
def ofTokens? (tokens : List Token) : Option Node := do
  let fuel := 3 * tokens.length + 3
  let (root, rest) ← match tokens with
    | [] => some (.empty, [])
    | .documentStart :: rest =>
      match rest with
      | [] | .documentStart :: _ | .documentEnd :: _ => some (.empty, rest)
      | _ => read? fuel false rest
    | _ => read? fuel false tokens
  if rest.all (· == .documentEnd) then some root else none

/-- The document that a text is. -/
def ofText? (text : String) : Option Node :=
  tokens? text >>= ofTokens?

end Node
end NestedRead.Yaml
