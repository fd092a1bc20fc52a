import NestedRead.Config.Validation
import NestedRead.Files
import NestedRead.Number.Natural
import NestedRead.Text.Utf8

/-!
# Why settings are refused

An error that comes from another one names it in its own message, and `ConfigError.cause?` gives
the other's message alone.
-/

set_option autoImplicit false

namespace NestedRead

/-- Why settings are refused. -/
inductive ConfigError where
  /-- A variable holds bytes that are no text. -/
  | notText (value : List UInt8)
  | notANumber (variableName value : String) (fault : Number.NaturalFault)
  | unreadable (error : FileError)
  /-- A document holds no settings. -/
  | malformed (document reason : String)
  | invalid (faults : List ConfigFault)
deriving DecidableEq, Repr

namespace ConfigError

/-- The variable or the part of a file that could not be read. -/
def source? : ConfigError → Option String
  | .notANumber name _ _ => some name
  | .unreadable _ => some "yaml_file"
  | .malformed _ _ => some "yaml_content"
  | .notText _ | .invalid _ => none

/-- The message of the error behind this one. -/
def causeText : ConfigError → String
  | .notText value => s!"environment variable was not valid unicode: {Text.Utf8.quoted value}"
  | .notANumber _ _ fault => fault.message
  | .unreadable error => error.message
  | .malformed _ reason => reason
  | .invalid faults => Text.joined "\n" (faults.map ConfigFault.line)

def message (e : ConfigError) : String :=
  match e with
  | .notText _ => s!"Environment variable error: {e.causeText}"
  | .notANumber name value _ => s!"Parse error for {name}: {value} - {e.causeText}"
  | .unreadable _ => s!"Parse error for yaml_file: file read failed - {e.causeText}"
  | .malformed document _ => s!"Parse error for yaml_content: {document} - {e.causeText}"
  | .invalid _ => s!"Validation error: {e.causeText}"

end ConfigError
end NestedRead
