/-!
# Keyed lists

A store as a list of keys with their values, in the order in which the keys came. `List.lookup`
is its view; `alter` is its one operation.
-/

set_option autoImplicit false

namespace NestedRead.Keyed

variable {κ α : Type} [DecidableEq κ]

/-- The value of a key made from the one it had; a new key comes last. -/
def alter (key : κ) (f : Option α → α) : List (κ × α) → List (κ × α)
  | [] => [(key, f none)]
  | (k, a) :: rest => if k = key then (k, f (some a)) :: rest else (k, a) :: alter key f rest

theorem lookup_alter_self (key : κ) (f : Option α → α) (store : List (κ × α)) :
    (alter key f store).lookup key = some (f (store.lookup key)) := by
  induction store with
  | nil => simp [alter]
  | cons entry rest ih =>
    obtain ⟨k, a⟩ := entry
    by_cases h : k = key
    · subst h; simp [alter]
    · have h' : (key == k) = false := by simpa using fun e => h e.symm
      simp [alter, h, List.lookup_cons, h', ih]

theorem lookup_alter_of_ne {key other : κ} (f : Option α → α) (h : other ≠ key)
    (store : List (κ × α)) : (alter key f store).lookup other = store.lookup other := by
  induction store with
  | nil =>
    have : (other == key) = false := by simpa using h
    simp [alter, List.lookup_cons, this]
  | cons entry rest ih =>
    obtain ⟨k, a⟩ := entry
    by_cases hk : k = key
    · subst hk
      have : (other == k) = false := by simpa using h
      simp [alter, List.lookup_cons, this]
    · simp only [alter, hk, if_false, List.lookup_cons]
      cases other == k <;> simp [ih]

end NestedRead.Keyed
