import NestedRead.Json.Basic

/-!
# Members of an object

What holds of a list of members whose keys are different: a key that is new is put at the end, and
looking a key up finds the one member that has it.
-/

set_option autoImplicit false

namespace NestedRead.Json

theorem get?_eq_none_iff {members : Members} {key : String} :
    get? members key = none ↔ key ∉ members.map Prod.fst := by
  rw [get?, List.lookup_eq_none_iff]
  simp only [List.mem_map, not_exists, not_and, bne_iff_ne]
  exact ⟨fun h p hp heq => h p hp heq.symm, fun h p hp heq => h p hp heq.symm⟩

theorem put_of_not_mem {key : String} (value : Json) : ∀ {members : Members},
    key ∉ members.map Prod.fst → put members key value = members ++ [(key, value)]
  | [], _ => rfl
  | (k, v) :: rest, h => by
    rw [List.map_cons, List.mem_cons, not_or] at h
    rw [put, if_neg (Ne.symm h.1), put_of_not_mem value h.2]
    rfl

theorem keys_put_of_mem {key : String} (value : Json) : ∀ {members : Members},
    key ∈ members.map Prod.fst → (put members key value).map Prod.fst = members.map Prod.fst
  | (k, v) :: rest, h => by
    rw [put]
    by_cases hk : k = key
    · rw [if_pos hk]
      rfl
    · rw [List.map_cons, List.mem_cons] at h
      rw [if_neg hk, List.map_cons, keys_put_of_mem value (h.resolve_left (Ne.symm hk))]
      rfl

/-- Different keys stay different when a member is put. -/
theorem nodup_put {members : Members} (h : (members.map Prod.fst).Nodup) (key : String)
    (value : Json) : ((put members key value).map Prod.fst).Nodup := by
  by_cases hkey : key ∈ members.map Prod.fst
  · rwa [keys_put_of_mem value hkey]
  · rw [put_of_not_mem value hkey, List.map_append, List.nodup_append]
    refine ⟨h, by simp, ?_⟩
    rintro a ha b hb rfl
    rw [List.map_singleton, List.mem_singleton] at hb
    subst hb
    exact hkey ha

theorem get?_cons (key other : String) (value : Json) (members : Members) :
    get? ((key, value) :: members) other
      = if key = other then some value else get? members other := by
  rw [get?, List.lookup_cons]
  by_cases h : key = other
  · rw [if_pos h, beq_iff_eq.mpr h.symm]
  · rw [if_neg h, beq_eq_false_iff_ne.mpr (Ne.symm h)]
    rfl

/-- A member that is put is found under its key, and every other key finds what it did. -/
theorem get?_put (key other : String) (value : Json) : ∀ members : Members,
    get? (put members key value) other = if key = other then some value else get? members other
  | [] => get?_cons key other value []
  | (k, v) :: rest => by
    rw [put]
    by_cases hk : k = key
    · subst hk
      rw [if_pos rfl, get?_cons, get?_cons]
      split <;> rfl
    · rw [if_neg hk, get?_cons, get?_cons, get?_put key other value rest]
      by_cases h : key = other
      · rw [if_pos h, if_pos h, if_neg (h ▸ hk)]
      · rw [if_neg h, if_neg h]

/-- Among different keys each is found with its own value. -/
theorem get?_of_mem {members : Members} (hnodup : (members.map Prod.fst).Nodup) {key : String}
    {value : Json} (h : (key, value) ∈ members) : get? members key = some value := by
  induction members with
  | nil => cases h
  | cons entry rest ih =>
    obtain ⟨k, v⟩ := entry
    rw [List.map_cons, List.nodup_cons] at hnodup
    rcases List.mem_cons.mp h with heq | hrest
    · cases heq
      simp [get?]
    · have hne : (key == k) = false := by
        rw [beq_eq_false_iff_ne]
        intro hkey
        exact hnodup.1 (List.mem_map.mpr ⟨_, hrest, hkey⟩)
      rw [get?, List.lookup_cons, hne]
      exact ih hnodup.2 hrest

theorem mem_of_get? {members : Members} {key : String} {value : Json}
    (h : get? members key = some value) : (key, value) ∈ members := by
  obtain ⟨before, after, hmembers, -⟩ := List.lookup_eq_some_iff.mp h
  rw [hmembers]
  simp

end NestedRead.Json
