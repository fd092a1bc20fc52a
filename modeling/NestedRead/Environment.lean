import NestedRead.Text.Utf8

/-!
# Environment variables

A variable holds bytes, which need not be a text.
-/

set_option autoImplicit false

namespace NestedRead

/-- Variables with the bytes that they hold; of two with one name the first counts. -/
structure Environment where
  entries : List (String × List UInt8)

namespace Environment

/-- The bytes of a variable. -/
def bytes? (environment : Environment) (name : String) : Option (List UInt8) :=
  environment.entries.lookup name

/-- The text of a variable, if it holds one. -/
def text? (environment : Environment) (name : String) : Option String :=
  environment.bytes? name >>= Text.Utf8.text?

/-- The environment with one more variable, or with another value of it. -/
def define (environment : Environment) (name value : String) : Environment :=
  ⟨(name, value.toUTF8.toList) :: environment.entries⟩

/-- The variables in a block of entries `name=value`, each ended by a zero byte. An entry whose
name is no text is left out. -/
def ofBlock (block : List UInt8) : Environment :=
  let texts := (block.splitBy fun a _ => a != 0).map fun entry => entry.filter (· != 0)
  ⟨texts.filterMap fun entry =>
    let (name, rest) := entry.span (· != 61)
    if rest.isEmpty then none else (Text.Utf8.text? name).map (·, rest.drop 1)⟩

end Environment
end NestedRead
