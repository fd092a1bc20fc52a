/-!
# Table aliases

Every table of a statement has an alias of its own. The first to ask for a name gets it; the
next ones get it with the first of the endings `_2`, `_3`, … that no alias in use has.
-/

set_option autoImplicit false

namespace NestedRead

/-- The aliases in use, the newest first. -/
structure AliasRegistry where
  taken : List String := []
deriving Repr

namespace AliasRegistry

/-- Only this alias is in use. -/
def withBase (base : String) : AliasRegistry := ⟨[base]⟩

/-- A name with its `k`-th ending. -/
def numbered (name : String) (k : Nat) : String := name ++ "_" ++ toString k

/-- The first ending from `k` on that gives a free alias, among `tries` of them. -/
def firstFree (taken : List String) (name : String) : Nat → Nat → String
  | 0, k => numbered name k
  | tries + 1, k =>
    if taken.contains (numbered name k) then firstFree taken name tries (k + 1)
    else numbered name k

/-- The alias for a name. As many endings as there are aliases in use cannot all be taken, so
that many tries are enough. -/
def choose (registry : AliasRegistry) (name : String) : String :=
  if registry.taken.contains name then firstFree registry.taken name registry.taken.length 2
  else name

/-- The alias for a name, and the registry with it in use. -/
def assign (registry : AliasRegistry) (name : String) : String × AliasRegistry :=
  let chosen := registry.choose name
  (chosen, ⟨chosen :: registry.taken⟩)

/-- The aliases for several names, one after the other. -/
def assignAll (registry : AliasRegistry) : List String → List String
  | [] => []
  | name :: rest =>
    let (chosen, registry) := registry.assign name
    chosen :: assignAll registry rest

end AliasRegistry
end NestedRead
