import NestedRead.Identifier
import NestedRead.Query.Alias
import Mathlib.Data.List.Nodup
import Mathlib.Data.List.Perm.Subperm
import Std.Data.String.ToNat

/-!
# Aliases are fresh

A name that is taken is tried with the endings `_2`, `_3`, … in turn. Different endings give
different names, so as many tries as there are aliases in use cannot all be taken: with the name
itself they would be more than there are. Hence the alias that is chosen is never in use, and the
aliases handed out one after the other are pairwise different.

An ending keeps an identifier plain, because it is an underscore with digits behind it.
-/

set_option autoImplicit false

namespace NestedRead

namespace AliasRegistry

theorem numbered_inj {name : String} {j k : Nat} (h : numbered name j = numbered name k) :
    j = k := by
  unfold numbered at h
  exact Nat.repr_injective ((String.append_right_inj _).mp h)

theorem numbered_ne_self (name : String) (k : Nat) : numbered name k ≠ name := by
  intro h
  have hlen := congrArg String.length h
  simp only [numbered, String.length_append] at hlen
  have : "_".length = 1 := by decide
  omega

/-- Where the search for a free ending stops: behind a run of taken ones, and either at a free one
or because the tries are used up. -/
theorem firstFree_spec (taken : List String) (name : String) : ∀ tries k : Nat,
    ∃ j ≤ tries, firstFree taken name tries k = numbered name (k + j) ∧
      (∀ i < j, numbered name (k + i) ∈ taken) ∧
      (numbered name (k + j) ∈ taken → j = tries)
  | 0, k => ⟨0, Nat.le_refl 0, rfl, fun i hi => absurd hi (Nat.not_lt_zero i), fun _ => rfl⟩
  | tries + 1, k => by
    -- The induction is on the tries that are left.
    by_cases hk : numbered name k ∈ taken
    · obtain ⟨j, hj, heq, hall, hlast⟩ := firstFree_spec taken name tries (k + 1)
      refine ⟨j + 1, Nat.succ_le_succ hj, ?_, ?_, ?_⟩
      · rw [firstFree, if_pos (by simpa using hk), heq, Nat.add_assoc, Nat.add_comm 1 j]
      · intro i hi
        cases i with
        | zero => exact hk
        | succ i =>
          have := hall i (Nat.lt_of_succ_lt_succ hi)
          rwa [Nat.add_assoc, Nat.add_comm 1 i] at this
      · intro hmem
        rw [hlast (by rwa [Nat.add_assoc, Nat.add_comm 1 j])]
    · refine ⟨0, Nat.zero_le _, ?_, fun i hi => absurd hi (Nat.not_lt_zero i), fun h => absurd h hk⟩
      rw [firstFree, if_neg (by simpa using hk)]
      rfl

/-- A name and its first endings are more than any list of that length can hold. -/
theorem not_all_taken {taken : List String} {name : String} (hname : name ∈ taken) :
    ¬ ∀ i < taken.length, numbered name (2 + i) ∈ taken := by
  intro hall
  -- They would be one more different names than the list has entries.
  have hnodup : (name :: (List.range taken.length).map fun i => numbered name (2 + i)).Nodup := by
    rw [List.nodup_cons]
    constructor
    · intro hmem
      obtain ⟨i, _, hi⟩ := List.mem_map.mp hmem
      exact numbered_ne_self name _ hi
    · exact List.Nodup.map (fun i j hij => by have := numbered_inj hij; omega) List.nodup_range
  have hsub : (name :: (List.range taken.length).map fun i => numbered name (2 + i)) ⊆ taken := by
    intro x hx
    rcases List.mem_cons.mp hx with rfl | hx
    · exact hname
    · obtain ⟨i, hi, rfl⟩ := List.mem_map.mp hx
      exact hall i (List.mem_range.mp hi)
  have hle := (hnodup.subperm hsub).length_le
  rw [List.length_cons, List.length_map, List.length_range] at hle
  omega

theorem choose_not_mem (registry : AliasRegistry) (name : String) :
    registry.choose name ∉ registry.taken := by
  unfold choose
  split
  · rename_i hname
    have hname : name ∈ registry.taken := by simpa using hname
    obtain ⟨j, hj, heq, hall, hlast⟩ := firstFree_spec registry.taken name registry.taken.length 2
    rw [heq]
    intro hmem
    rw [hlast hmem] at hall
    exact not_all_taken hname hall
  · rename_i hname
    simpa using hname

/-- The alias for a name is the name itself or the name with an ending. -/
theorem choose_cases (registry : AliasRegistry) (name : String) :
    registry.choose name = name ∨ ∃ k, registry.choose name = numbered name k := by
  unfold choose
  split
  · obtain ⟨j, _, heq, _, _⟩ := firstFree_spec registry.taken name registry.taken.length 2
    exact Or.inr ⟨_, heq⟩
  · exact Or.inl rfl

end AliasRegistry

/-! ## Identifiers with an ending -/

namespace Identifier

theorem continues_of_all_isAlphanum : ∀ {cs : List Char} {u : Bool},
    (∀ c ∈ cs, c.isAlphanum = true) → (cs = [] → u = false) → continues u cs = true
  | [], u, _, hu => by rw [hu rfl]; rfl
  | c :: cs, u, h, _ => by
    rw [continues, if_pos (h c (by simp))]
    exact continues_of_all_isAlphanum (fun d hd => h d (List.mem_cons_of_mem c hd)) fun _ => rfl

/-- An identifier goes on with an underscore when a letter or digit follows. -/
theorem continues_append {more : List Char} (hmore : continues true more = true) :
    ∀ {cs : List Char} {u : Bool}, continues u cs = true →
      continues u (cs ++ '_' :: more) = true
  | [], u, h => by
    have hu : u = false := by simpa [continues] using h
    rw [hu, List.nil_append, continues, if_neg (by decide), if_pos (by decide)]
    exact hmore
  | c :: cs, u, h => by
    rw [List.cons_append, continues]
    rw [continues] at h
    split
    · rename_i hc
      rw [if_pos hc] at h
      exact continues_append hmore h
    · rename_i hc
      rw [if_neg hc] at h
      split at h
      · rename_i hu
        rw [if_pos hu]
        exact continues_append hmore h
      · cases h

/-- An identifier with an ending is one. -/
theorem isPlain_numbered {name : String} (k : Nat) (h : isPlain name = true) :
    isPlain (AliasRegistry.numbered name k) = true := by
  have hdigits : continues true (toString k).toList = true := by
    rw [Nat.toString_eq_repr, Nat.toList_repr]
    refine continues_of_all_isAlphanum (fun c hc => ?_) fun hnil => ?_
    · simp [Char.isAlphanum, Nat.isDigit_of_mem_toDigits (by decide) (by decide) hc]
    · have : (Nat.repr k).toList = [] := by rw [Nat.toList_repr, hnil]
      have := congrArg List.length this
      rw [String.length_toList] at this
      have := Nat.length_repr_pos (n := k)
      simp_all
  unfold isPlain at h ⊢
  unfold AliasRegistry.numbered
  rw [String.toList_append, String.toList_append]
  cases hs : name.toList with
  | nil => rw [hs] at h; cases h
  | cons c cs =>
    rw [hs, isPlainChars, Bool.and_eq_true] at h
    rw [show "_".toList = ['_'] by decide, List.append_assoc, List.cons_append, isPlainChars,
      Bool.and_eq_true]
    exact ⟨h.1, continues_append hdigits h.2⟩

theorem isPlain_choose (registry : AliasRegistry) {name : String} (h : isPlain name = true) :
    isPlain (registry.choose name) = true := by
  rcases registry.choose_cases name with heq | ⟨k, heq⟩
  · rw [heq]; exact h
  · rw [heq]; exact isPlain_numbered k h

end Identifier
end NestedRead
