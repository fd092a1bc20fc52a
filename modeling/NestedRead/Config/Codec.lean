import NestedRead.Config.Basic
import NestedRead.Json.Record

/-!
# Settings in JSON
-/

set_option autoImplicit false

namespace NestedRead

open Json

/-- Settings written as a record whose members may all be missing. -/
def Config.ofJson? (value : Json) : Option Config := do
  let fallback : Config := {}
  let [aliasSeparator, baseAlias, defaultLimit, maxLimit] ←
    value.record? ["alias_separator", "base_alias", "default_limit", "max_limit"] | none
  return { aliasSeparator := ← optional? fallback.aliasSeparator string? aliasSeparator
           baseAlias := ← optional? fallback.baseAlias string? baseAlias
           defaultLimit := ← optional? fallback.defaultLimit (nullable? nat?) defaultLimit
           maxLimit := ← optional? fallback.maxLimit (nullable? nat?) maxLimit }

end NestedRead
