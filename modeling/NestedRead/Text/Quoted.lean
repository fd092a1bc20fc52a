import NestedRead.Text.CharClass

/-!
# Quoted text in messages

A message quotes a text between double quotes, so that blanks and control characters can be
seen: the quote and the backslash get a backslash, the usual control characters their letter,
and every other hidden character its code point in braces.
-/

set_option autoImplicit false

namespace NestedRead.Text

/-- The code point of a character in braces, in lower-case hexadecimal. -/
def codePoint (c : Char) : List Char :=
  ['\\', 'u', '\x7b'] ++ Nat.toDigits 16 c.toNat ++ ['\x7d']

/-- A character inside quotes. `single` says that a single quote is escaped as well. -/
def quotedChar (single : Bool) (c : Char) : List Char :=
  if c = '\x00' then ['\\', '0']
  else if c = '\t' then ['\\', 't']
  else if c = '\r' then ['\\', 'r']
  else if c = '\n' then ['\\', 'n']
  else if c = '\\' then ['\\', '\\']
  else if c = '"' then ['\\', '"']
  else if c = '\x27' && single then ['\\', '\x27']
  else if CharClass.isHidden c then codePoint c
  else [c]

def quoted (text : String) : String :=
  String.ofList ('"' :: text.toList.flatMap (quotedChar false) ++ ['"'])

end NestedRead.Text
