import NestedRead.Json.Writer

/-!
# Rows that do not fit their layout
-/

set_option autoImplicit false

namespace NestedRead

/-- Why rows cannot be read back. -/
inductive RowError where
  | notObject (row : Nat)
  | unaliasedColumn (column separator : String)
  | unknownAlias (tableAlias column : String)
  | missingUniqueColumn (tableAlias column : String) (row : Nat)
  | invalidId (tableAlias : String) (value : Json)
  | missingBinding (path : String)

def RowError.message : RowError → String
  | .notObject row => s!"Row {row} is not an object"
  | .unaliasedColumn column separator =>
    s!"Column `{column}` has no table alias (expected `<alias>{separator}<field>`)"
  | .unknownAlias tableAlias column => s!"Column `{column}` refers to unknown alias `{tableAlias}`"
  | .missingUniqueColumn tableAlias column row =>
    s!"Unique column `{column}` for alias `{tableAlias}` is missing from row {row}"
  | .invalidId tableAlias value =>
    s!"Unique id for alias `{tableAlias}` is not a scalar: {value.compact}"
  | .missingBinding path => s!"No alias recorded for selection path `{path}`"

end NestedRead
