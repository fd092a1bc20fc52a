/-!
# Sorted lists

Insertion into a list that is kept in ascending order by a comparison. The comparison is given,
so one definition serves names, identifiers and paths.
-/

set_option autoImplicit false

namespace NestedRead.Ordered

variable {α κ β : Type}

/-- The item before the first that is greater. -/
def insert (cmp : α → α → Ordering) (x : α) : List α → List α
  | [] => [x]
  | y :: ys => if cmp x y == .lt then x :: y :: ys else y :: insert cmp x ys

/-- The items in ascending order, equal ones as they stood. -/
def sort (cmp : α → α → Ordering) (xs : List α) : List α :=
  xs.foldl (fun sorted x => insert cmp x sorted) []

/-- The item in its place, unless its equal is there already. -/
def insertNew (cmp : α → α → Ordering) (x : α) : List α → List α
  | [] => [x]
  | y :: ys =>
    match cmp x y with
    | .lt => x :: y :: ys
    | .eq => y :: ys
    | .gt => y :: insertNew cmp x ys

/-- The value under its key; the value of a key that is there already is replaced. -/
def put (cmp : κ → κ → Ordering) (key : κ) (value : β) : List (κ × β) → List (κ × β)
  | [] => [(key, value)]
  | (k, v) :: rest =>
    match cmp key k with
    | .lt => (key, value) :: (k, v) :: rest
    | .eq => (key, value) :: rest
    | .gt => (k, v) :: put cmp key value rest

/-- The values of a list of keyed pairs in ascending order of the keys, the last value of a
repeated key. -/
def ofPairs (cmp : κ → κ → Ordering) (pairs : List (κ × β)) : List (κ × β) :=
  pairs.foldl (fun sorted (key, value) => put cmp key value sorted) []

/-- The order of lists by their first difference, a list coming after its own beginnings. -/
def compareLists (cmp : α → α → Ordering) : List α → List α → Ordering
  | [], [] => .eq
  | [], _ :: _ => .lt
  | _ :: _, [] => .gt
  | x :: xs, y :: ys =>
    match cmp x y with
    | .eq => compareLists cmp xs ys
    | decided => decided

end NestedRead.Ordered
