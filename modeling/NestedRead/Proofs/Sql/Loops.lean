import Mathlib.Data.List.Basic

/-!
# Environments and nested loops

An environment has a value under each alias, or none. Loops run one inside the other extend an
environment item by item, each in every way that its step allows. A join in SQL is such a loop: its
step tries the rows of a table, and where none fits an outer join goes on with none.
-/

set_option autoImplicit false

namespace NestedRead

variable {V : Type}

/-! ## Environments -/

/-- What stands under each alias; none where nothing matched. -/
abbrev Env (V : Type) := String → Option V

namespace Env

/-- A value under one alias and none under all others. -/
def only (tableAlias : String) (v : V) : Env V := fun a => if a = tableAlias then some v else none

/-- The environment with something else under one alias. -/
def set (env : Env V) (tableAlias : String) (value : Option V) : Env V :=
  fun a => if a = tableAlias then value else env a

@[simp] theorem only_self (tableAlias : String) (v : V) : only tableAlias v tableAlias = some v :=
  if_pos rfl

@[simp] theorem set_self (env : Env V) (tableAlias : String) (value : Option V) :
    env.set tableAlias value tableAlias = value :=
  if_pos rfl

theorem set_of_ne (env : Env V) {tableAlias other : String} (value : Option V)
    (h : other ≠ tableAlias) : env.set tableAlias value other = env other :=
  if_neg h

end Env

/-! ## Loops -/

section extend

variable {α β : Type}

/-- The extensions of an environment by several items, one inside the other. -/
def extend (step : α → Env V → List (Env V)) : List α → Env V → List (Env V)
  | [], env => [env]
  | x :: rest, env => (step x env).flatMap (extend step rest)

theorem extend_append (step : α → Env V → List (Env V)) : ∀ (xs ys : List α) (env : Env V),
    extend step (xs ++ ys) env = (extend step xs env).flatMap (extend step ys)
  | [], ys, env => by simp [extend]
  | x :: xs, ys, env => by
    rw [List.cons_append, extend, extend, List.flatMap_assoc]
    exact List.flatMap_congr fun env' _ => extend_append step xs ys env'

/-- Loops over lists of items are loops over the items of all the lists. -/
theorem extend_flatMap (step : β → Env V → List (Env V)) (f : α → List β) :
    ∀ (xs : List α) (env : Env V),
      extend step (xs.flatMap f) env = extend (fun x => extend step (f x)) xs env
  | [], env => rfl
  | x :: xs, env => by
    rw [List.flatMap_cons, extend_append, extend]
    exact List.flatMap_congr fun env' _ => extend_flatMap step f xs env'

@[simp] theorem extend_singleton (step : α → Env V → List (Env V)) (x : α) (env : Env V) :
    extend step [x] env = step x env := by
  simp [extend]

end extend

/-! ## Choices -/

/-- Each of several, or once none where there are none at all. -/
def orNone : List V → List (Option V)
  | [] => [none]
  | x :: xs => (x :: xs).map some

theorem mem_orNone {xs : List V} {choice : Option V} :
    choice ∈ orNone xs ↔ xs = [] ∧ choice = none ∨ ∃ x ∈ xs, choice = some x := by
  cases xs with
  | nil => simp [orNone]
  | cons x xs =>
    rw [orNone, List.mem_map]
    simp [eq_comm]

theorem orNone_ne_nil (xs : List V) : orNone xs ≠ [] := by
  cases xs <;> simp [orNone]

end NestedRead
