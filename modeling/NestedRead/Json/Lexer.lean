import NestedRead.Number.Literal

/-!
# Tokens of a JSON document

The lexer goes through the characters once and keeps what it is in the middle of: nothing, a
word, a number or a string. A string is collected as the characters and the code units that it
spells; whether these form text is decided when it is complete.
-/

set_option autoImplicit false

namespace NestedRead.Json

/-- What a string literal spells: a character, or a UTF-16 code unit written in hexadecimal. -/
inductive Spelled where
  | char (c : Char)
  | codeUnit (n : Nat)
deriving DecidableEq

namespace Spelled

/-- The text that is spelled. Two code units form a character beyond the first plane; a half of
such a pair that stands alone is no text. -/
def text? : List Spelled → Option (List Char)
  | [] => some []
  | .char c :: rest => (text? rest).map (c :: ·)
  | .codeUnit n :: rest =>
    if n < 0xD800 ∨ 0xDFFF < n then (text? rest).map (Char.ofNat n :: ·)
    else match rest with
      | .codeUnit low :: rest =>
        if n < 0xDC00 ∧ 0xDC00 ≤ low ∧ low ≤ 0xDFFF then
          (text? rest).map (Char.ofNat (0x10000 + (n - 0xD800) * 0x400 + (low - 0xDC00)) :: ·)
        else none
      | _ => none

end Spelled

/-- A token. A string that spells no text is still a token. -/
inductive Token where
  | openArray
  | closeArray
  | openObject
  | closeObject
  | comma
  | colon
  | null
  | bool (value : Bool)
  | number (literal : Number.Literal)
  | string (text : Option String)

/-- What the lexer is in the middle of; the collected characters are in reverse. -/
inductive Lexer.Mode where
  | between
  | word (letters : List Char)
  | number (text : List Char)
  | string (spelled : List Spelled)
  | escape (spelled : List Spelled)
  | hex (spelled : List Spelled) (digits : List Nat)

/-- The tokens found so far, in reverse, and what is under way. -/
structure Lexer where
  tokens : List Token
  mode : Lexer.Mode

namespace Lexer

/-- The characters that stand between tokens. -/
def isBlank (c : Char) : Bool :=
  c == ' ' || c == '\t' || c == '\n' || c == '\r'

/-- The characters that can occur in a number. -/
def isNumeric (c : Char) : Bool :=
  c.isDigit || c == '-' || c == '+' || c == '.' || c == 'e' || c == 'E'

def word? (letters : List Char) : Option Token :=
  match String.ofList letters with
  | "null" => some .null
  | "true" => some (.bool true)
  | "false" => some (.bool false)
  | _ => none

/-- The character that a one-letter escape stands for. -/
def escaped? (c : Char) : Option Char :=
  match c with
  | '"' => some '"'
  | '\\' => some '\\'
  | '/' => some '/'
  | 'b' => some '\x08'
  | 'f' => some '\x0c'
  | 'n' => some '\n'
  | 'r' => some '\r'
  | 't' => some '\t'
  | _ => none

/-- The value of a hexadecimal digit. -/
def hexDigit? (c : Char) : Option Nat :=
  if c.isDigit then some (c.toNat - '0'.toNat)
  else if 'a' ≤ c ∧ c ≤ 'f' then some (c.toNat - 'a'.toNat + 10)
  else if 'A' ≤ c ∧ c ≤ 'F' then some (c.toNat - 'A'.toNat + 10)
  else none

/-- A character outside every token, which can start one. -/
def start? (tokens : List Token) (c : Char) : Option Lexer :=
  match c with
  | '[' => some ⟨.openArray :: tokens, .between⟩
  | ']' => some ⟨.closeArray :: tokens, .between⟩
  | '\x7b' => some ⟨.openObject :: tokens, .between⟩
  | '\x7d' => some ⟨.closeObject :: tokens, .between⟩
  | ',' => some ⟨.comma :: tokens, .between⟩
  | ':' => some ⟨.colon :: tokens, .between⟩
  | '"' => some ⟨tokens, .string []⟩
  | _ =>
    if isBlank c then some ⟨tokens, .between⟩
    else if c.isDigit || c == '-' then some ⟨tokens, .number [c]⟩
    else if c.isLower then some ⟨tokens, .word [c]⟩
    else none

/-- The tokens once the word or number under way has ended. -/
def settled? (l : Lexer) : Option (List Token) :=
  match l.mode with
  | .between => some l.tokens
  | .word letters => (word? letters.reverse).map (· :: l.tokens)
  | .number text => (Number.Literal.ofText? text.reverse).map (.number · :: l.tokens)
  | _ => none

def step (l : Lexer) (c : Char) : Option Lexer :=
  match l.mode with
  | .between => start? l.tokens c
  | .word letters =>
    if c.isLower then some ⟨l.tokens, .word (c :: letters)⟩
    else l.settled?.bind (start? · c)
  | .number text =>
    if isNumeric c then some ⟨l.tokens, .number (c :: text)⟩
    else l.settled?.bind (start? · c)
  | .string spelled =>
    if c = '"' then
      let text := (Spelled.text? spelled.reverse).map String.ofList
      some ⟨.string text :: l.tokens, .between⟩
    else if c = '\\' then some ⟨l.tokens, .escape spelled⟩
    else if c.toNat < 0x20 then none
    else some ⟨l.tokens, .string (.char c :: spelled)⟩
  | .escape spelled =>
    if c = 'u' then some ⟨l.tokens, .hex spelled []⟩
    else (escaped? c).map fun e => ⟨l.tokens, .string (.char e :: spelled)⟩
  | .hex spelled digits =>
    (hexDigit? c).map fun d =>
      match digits with
      | [d3, d2, d1] =>
        ⟨l.tokens, .string (.codeUnit (((d1 * 16 + d2) * 16 + d3) * 16 + d) :: spelled)⟩
      | _ => ⟨l.tokens, .hex spelled (d :: digits)⟩

end Lexer

/-- The tokens of a text, or none where it is not made of tokens. -/
def tokens? (text : List Char) : Option (List Token) := do
  let last ← text.foldlM Lexer.step ⟨[], .between⟩
  return (← last.settled?).reverse

end NestedRead.Json
