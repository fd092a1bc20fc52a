import NestedRead.Text.Quoted

/-!
# Bytes as text

A run of bytes is a text where it is well-formed UTF-8: every character in its shortest form, no
surrogates, nothing beyond the last code point. Bytes that are part of no character stay bytes,
so that a message can show them.
-/

set_option autoImplicit false

namespace NestedRead.Text.Utf8

/-- The low six bits of a byte that continues a character. -/
def continuation? (b : UInt8) : Option Nat :=
  if 0x80 ≤ b ∧ b < 0xC0 then some (b.toNat - 0x80) else none

/-- The code point from its leading bits and the bytes that continue it, where it is at least
`least`. -/
def codePoint? (least leading : Nat) (bytes : List UInt8) : Option Char := do
  let parts ← bytes.mapM continuation?
  let n := parts.foldl (fun n part => n * 64 + part) leading
  if least ≤ n ∧ n.isValidChar then some (Char.ofNat n) else none

/-- The character that starts with the first byte, and the number of further bytes that it
takes. -/
def char? : List UInt8 → Option (Char × Nat)
  | a :: rest =>
    if a < 0x80 then some (Char.ofNat a.toNat, 0)
    else if 0xC0 ≤ a ∧ a < 0xE0 then more 1 0x80 (a.toNat - 0xC0) rest
    else if 0xE0 ≤ a ∧ a < 0xF0 then more 2 0x800 (a.toNat - 0xE0) rest
    else if 0xF0 ≤ a ∧ a < 0xF8 then more 3 0x10000 (a.toNat - 0xF0) rest
    else none
  | [] => none
where
  more (count least leading : Nat) (rest : List UInt8) : Option (Char × Nat) :=
    if rest.length < count then none
    else (codePoint? least leading (rest.take count)).map (·, count)

/-- The characters of a run of bytes, and the bytes that are part of none; the first `taken`
bytes belong to the character before. -/
def parts (taken : Nat) : List UInt8 → List (Except UInt8 Char)
  | [] => []
  | b :: rest =>
    match taken with
    | taken + 1 => parts taken rest
    | 0 =>
      match char? (b :: rest) with
      | some (c, further) => .ok c :: parts further rest
      | none => .error b :: parts 0 rest

/-- The text that a run of bytes is. -/
def text? (bytes : List UInt8) : Option String :=
  let char : Except UInt8 Char → Option Char
    | .ok c => some c
    | .error _ => none
  ((parts 0 bytes).mapM char).map String.ofList

/-- A byte in upper-case hexadecimal. -/
def byteText (b : UInt8) : List Char :=
  let digit (n : Nat) : Char := (Nat.digitChar n).toUpper
  ['\\', 'x', digit (b.toNat / 16), digit (b.toNat % 16)]

/-- A run of bytes in double quotes, in which both kinds of quotes are escaped and a byte that is
part of no character is shown as a byte. -/
def quoted (bytes : List UInt8) : String :=
  let shown : Except UInt8 Char → List Char
    | .ok c => quotedChar true c
    | .error b => byteText b
  String.ofList ('"' :: (parts 0 bytes).flatMap shown ++ ['"'])

end NestedRead.Text.Utf8
