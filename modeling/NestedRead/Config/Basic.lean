/-!
# Settings of the compiler
-/

set_option autoImplicit false

namespace NestedRead

/-- How statements are compiled. -/
structure Config where
  /-- What stands between table alias and field in the key of a column. -/
  aliasSeparator : String := "___"
  /-- The table alias of the root entity. -/
  baseAlias : String := "base"
  /-- The limit of a request that asks for none. -/
  defaultLimit : Option Nat := none
  /-- The largest limit. -/
  maxLimit : Option Nat := none
deriving DecidableEq, Repr

namespace Config

/-- The limit that a request gets, and whether it was clamped: the one that it asks for or else
the default, but never more than the largest. -/
def limit? (config : Config) (requested : Option Nat) : Option (Nat × Bool) :=
  (requested.or config.defaultLimit).map fun limit =>
    match config.maxLimit with
    | some max => if max < limit then (max, true) else (limit, false)
    | none => (limit, false)

end Config
end NestedRead
