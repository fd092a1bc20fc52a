import Mathlib
import NestedRead.Proofs.Naming.Alias

/-!
# The search for an alias

The search tries the name itself, then the name with the endings 2, 3, … behind it, and stops at the
first candidate that is free. Nothing in it bounds the number of tries, and its counter is a signed
word of 32 bits. `Search.Step` is one turn of it, with both facts as they are: a candidate that is
taken gives way to the next one, provided that the counter can still go up.

`AliasRegistry.choose` looks at as many endings as there are aliases in use. That the search ends
where `choose` does, before the counter is used up, is `choose_assigned`; it holds of one name in
any registry that is not full. A sequence of names is an induction on it, with the registry growing
by one alias for each name.
-/

set_option autoImplicit false

namespace NestedRead

namespace AliasRegistry

/-! ## One turn of the search -/

/-- The largest value of the counter. -/
def maxEnding : Nat := 2 ^ 31 - 1

/-- The candidate that is tried, and the ending of the one after it. -/
structure Search where
  candidate : String
  ending : Nat

namespace Search

/-- The name itself comes first, and 2 is the first ending. -/
def start (name : String) : Search := ⟨name, 2⟩

/-- A candidate that is taken gives way to the name with the next ending. -/
inductive Step (taken : List String) (name : String) : Search → Search → Prop
  | next {candidate : String} {ending : Nat} (busy : candidate ∈ taken)
      (counted : ending + 1 ≤ maxEnding) :
      Step taken name ⟨candidate, ending⟩ ⟨numbered name ending, ending + 1⟩

/-- A number of turns, one after the other. -/
inductive Steps (taken : List String) (name : String) : Nat → Search → Search → Prop
  | none (s : Search) : Steps taken name 0 s s
  | more {n : Nat} {s t u : Search} (first : Step taken name s t)
      (rest : Steps taken name n t u) : Steps taken name (n + 1) s u

variable {taken more : List String} {name : String}

theorem Step.mono (hsub : taken ⊆ more) {s t : Search} (h : Step taken name s t) :
    Step more name s t := by
  cases h with
  | next busy counted => exact .next (hsub busy) counted

theorem Steps.mono (hsub : taken ⊆ more) {n : Nat} {s t : Search} (h : Steps taken name n s t) :
    Steps more name n s t := by
  induction h with
  | none s => exact .none s
  | more first _ ih => exact .more (first.mono hsub) ih

/-- The search passes a run of endings that are all taken. -/
theorem steps_of_taken : ∀ {n k : Nat}, (∀ i < n, numbered name (k + i) ∈ taken) →
    k + 1 + n ≤ maxEnding →
    Steps taken name n ⟨numbered name k, k + 1⟩ ⟨numbered name (k + n), k + 1 + n⟩
  | 0, k, _, _ => .none _
  | n + 1, k, htaken, hcounted => by
    have hfirst : numbered name k ∈ taken := htaken 0 (Nat.zero_lt_succ n)
    have hrest : ∀ i < n, numbered name (k + 1 + i) ∈ taken := by
      intro i hi
      rw [Nat.add_right_comm, Nat.add_assoc]
      exact htaken (i + 1) (Nat.succ_lt_succ hi)
    have hsteps := steps_of_taken hrest (by omega)
    rw [Nat.add_right_comm k 1 n, Nat.add_right_comm (k + 1) 1 n] at hsteps
    exact .more (.next hfirst (by omega)) hsteps

end Search

/-! ## The alias of one name -/

/-- What the alias of a name is where some are taken, and how it is found. -/
structure Assigned (taken : List String) (name chosen : String) : Prop where
  free : chosen ∉ taken
  bare : name ∉ taken → chosen = name
  least : name ∈ taken → ∃ k ≥ 2, chosen = numbered name k ∧
    ∀ j, 2 ≤ j → j < k → numbered name j ∈ taken
  found : ∃ n ≤ taken.length, ∃ ending,
    Search.Steps taken name n (Search.start name) ⟨chosen, ending⟩
  plain : Identifier.isPlain name = true → Identifier.isPlain chosen = true

/-- The order in which the aliases were taken does not matter. -/
theorem Assigned.perm {taken more : List String} {name chosen : String} (hperm : taken.Perm more)
    (h : Assigned taken name chosen) : Assigned more name chosen := by
  obtain ⟨n, hn, ending, hsteps⟩ := h.found
  refine ⟨?_, ?_, ?_, ⟨n, ?_, ending, hsteps.mono hperm.subset⟩, h.plain⟩
  · intro hmem
    exact h.free (hperm.mem_iff.mpr hmem)
  · intro hname
    exact h.bare fun hmem => hname (hperm.mem_iff.mp hmem)
  · intro hname
    obtain ⟨k, hk, hchosen, htaken⟩ := h.least (hperm.mem_iff.mpr hname)
    exact ⟨k, hk, hchosen, fun j hj hjk => hperm.subset (htaken j hj hjk)⟩
  · rw [← hperm.length_eq]
    exact hn

/-- The alias of a name that is taken has the first free ending, behind fewer taken ones than there
are aliases in use: the name itself is one of those. -/
theorem choose_of_mem {registry : AliasRegistry} {name : String} (hname : name ∈ registry.taken) :
    ∃ j < registry.taken.length, registry.choose name = numbered name (2 + j) ∧
      ∀ i < j, numbered name (2 + i) ∈ registry.taken := by
  obtain ⟨j, hj, heq, htaken, -⟩ :=
    firstFree_spec registry.taken name registry.taken.length 2
  refine ⟨j, ?_, ?_, htaken⟩
  · rcases Nat.lt_or_eq_of_le hj with hlt | rfl
    · exact hlt
    · exact absurd htaken (not_all_taken hname)
  · rw [choose, if_pos (by simpa using hname), heq]

theorem choose_of_not_mem {registry : AliasRegistry} {name : String}
    (hname : name ∉ registry.taken) : registry.choose name = name := by
  rw [choose, if_neg (by simpa using hname)]

/-- While the counter has room for every alias in use, the search ends at the alias that is
chosen. -/
theorem choose_assigned {registry : AliasRegistry} (name : String)
    (hroom : registry.taken.length + 2 ≤ maxEnding) :
    Assigned registry.taken name (registry.choose name) := by
  have hplain : Identifier.isPlain name = true → Identifier.isPlain (registry.choose name) = true :=
    Identifier.isPlain_choose registry
  by_cases hname : name ∈ registry.taken
  · obtain ⟨j, hj, hchosen, htaken⟩ := choose_of_mem hname
    have hsteps : Search.Steps registry.taken name (j + 1) (.start name)
        ⟨numbered name (2 + j), 2 + 1 + j⟩ :=
      .more (.next hname (by omega)) (Search.steps_of_taken htaken (by omega))
    refine ⟨registry.choose_not_mem name, fun hnot => absurd hname hnot, fun _ => ?_, ?_, hplain⟩
    · refine ⟨2 + j, Nat.le_add_right 2 j, hchosen, ?_⟩
      intro i hi hij
      obtain ⟨d, rfl⟩ := Nat.exists_eq_add_of_le hi
      exact htaken d (Nat.lt_of_add_lt_add_left hij)
    · rw [hchosen]
      exact ⟨j + 1, hj, _, hsteps⟩
  · have hchosen := choose_of_not_mem hname
    refine ⟨registry.choose_not_mem name, fun _ => hchosen, fun h => absurd h hname, ?_, hplain⟩
    rw [hchosen]
    exact ⟨0, Nat.zero_le _, 2, .none _⟩

/-! ## A sequence of names -/

theorem assignAll_cons (registry : AliasRegistry) (name : String) (rest : List String) :
    registry.assignAll (name :: rest) =
      registry.choose name :: (registry.assign name).2.assignAll rest := rfl

theorem length_assignAll : ∀ (names : List String) (registry : AliasRegistry),
    (registry.assignAll names).length = names.length
  | [], _ => rfl
  | name :: rest, registry => by
    rw [assignAll_cons, List.length_cons, List.length_cons, length_assignAll rest]

/-- None of the aliases was in use before, and none is handed out twice. -/
theorem nodup_assignAll : ∀ (names : List String) (registry : AliasRegistry),
    registry.taken.Nodup → (registry.assignAll names ++ registry.taken).Nodup
  | [], _, h => h
  | name :: rest, registry, h => by
    have hnext : (registry.assign name).2.taken.Nodup :=
      List.nodup_cons.mpr ⟨registry.choose_not_mem name, h⟩
    have hrest := nodup_assignAll rest _ hnext
    rw [assignAll_cons, List.cons_append]
    exact List.perm_middle.nodup_iff.mp hrest

/-- Each name is given what a registry chooses that has the earlier aliases in use. -/
theorem exists_registry_of_getElem? : ∀ (registry : AliasRegistry) {names : List String} {i : Nat}
    {name : String}, names[i]? = some name → ∃ between : AliasRegistry,
      (registry.assignAll names)[i]? = some (between.choose name) ∧
      between.taken.Perm ((registry.assignAll names).take i ++ registry.taken)
  | registry, first :: rest, 0, name, h => by
    obtain rfl : first = name := by simpa using h
    exact ⟨registry, rfl, .refl _⟩
  | registry, first :: rest, i + 1, name, h => by
    have hrest : rest[i]? = some name := by simpa using h
    obtain ⟨between, hchosen, htaken⟩ :=
      exists_registry_of_getElem? (registry.assign first).2 hrest
    refine ⟨between, ?_, ?_⟩
    · rw [assignAll_cons, List.getElem?_cons_succ]
      exact hchosen
    · rw [assignAll_cons, List.take_succ_cons, List.cons_append]
      exact htaken.trans List.perm_middle

/-- **Every name gets a fresh alias, the least that is free**, after no more turns of the search
than there are aliases in use. Under a base alias, for names that the counter can number: the
aliases are different from each other and from the base, and each is assigned to its name where the
base and the earlier ones are taken. -/
theorem assignAll_assigned (base : String) {names : List String}
    (hnames : names.length < 2 ^ 31 - 2) :
    (base :: (withBase base).assignAll names).Nodup ∧
    ((withBase base).assignAll names).length = names.length ∧
    ∀ i name, names[i]? = some name → ∃ chosen,
      ((withBase base).assignAll names)[i]? = some chosen ∧
      Assigned (base :: ((withBase base).assignAll names).take i) name chosen := by
  have hlength := length_assignAll names (withBase base)
  refine ⟨?_, hlength, ?_⟩
  · have hnodup := nodup_assignAll names (withBase base) (List.nodup_singleton base)
    exact (List.perm_append_singleton base _).nodup_iff.mp hnodup
  · intro i name hi
    obtain ⟨between, hchosen, hperm⟩ := exists_registry_of_getElem? (withBase base) hi
    have hperm : between.taken.Perm (base :: ((withBase base).assignAll names).take i) :=
      hperm.trans (List.perm_append_singleton base _)
    have hroom : between.taken.length + 2 ≤ maxEnding := by
      obtain ⟨hi, -⟩ := List.getElem?_eq_some_iff.mp hi
      rw [hperm.length_eq, List.length_cons, List.length_take, hlength, maxEnding]
      omega
    exact ⟨_, hchosen, (choose_assigned name hroom).perm hperm⟩

/-- Names that look like numbered ones, the base among them. -/
theorem assignAll_assigned_lookalikes :
    ["Node_2", "Node", "Node", "base", "Node_2"].length < 2 ^ 31 - 2 ∧
    (withBase "base").assignAll ["Node_2", "Node", "Node", "base", "Node_2"] =
      ["Node_2", "Node", "Node_3", "base_2", "Node_2_2"] ∧
    Assigned ["base", "Node_2", "Node"] "Node" "Node_3" := by
  have hall : (withBase "base").assignAll ["Node_2", "Node", "Node", "base", "Node_2"] =
      ["Node_2", "Node", "Node_3", "base_2", "Node_2_2"] := by decide
  have hfew : ["Node_2", "Node", "Node", "base", "Node_2"].length < 2 ^ 31 - 2 := by decide
  obtain ⟨-, -, heach⟩ := assignAll_assigned "base" hfew
  obtain ⟨chosen, hchosen, hassigned⟩ := heach 2 "Node" rfl
  rw [hall] at hchosen hassigned
  cases hchosen
  exact ⟨hfew, hall, hassigned⟩

end AliasRegistry
end NestedRead
