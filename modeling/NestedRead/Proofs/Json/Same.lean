import Mathlib.Data.List.Forall2
import Mathlib.Data.List.Perm.Subperm
import NestedRead.Proofs.Json.Members

/-!
# Equal values

`Json.same` compares objects by their keys. It is defined by a walk over the members of one side, so
what it says is told here once: two objects with different keys each are the same when every key
finds the same in both (`same_object`).

On values in which no object has a key twice this is an equivalence. Nothing else is a JSON value,
but the type does not say so, hence `WellKeyed`. Transitivity does not need it.
-/

set_option autoImplicit false

namespace NestedRead

/-! ## Numbers -/

theorem Binary64.sameValue_refl (x : Binary64) : x.sameValue x = true := by
  simp [sameValue]

theorem Binary64.sameValue_comm (x y : Binary64) : x.sameValue y = y.sameValue x := by
  rw [sameValue, sameValue, Bool.eq_iff_iff]
  simp only [Bool.and_eq_true, Bool.or_eq_true, beq_iff_eq]
  constructor
  · rintro ⟨hmagnitude, hsign⟩
    exact ⟨hmagnitude.symm, hsign.imp Eq.symm fun h => hmagnitude.symm.trans h⟩
  · rintro ⟨hmagnitude, hsign⟩
    exact ⟨hmagnitude.symm, hsign.imp Eq.symm fun h => hmagnitude.symm.trans h⟩

theorem Binary64.sameValue_trans {x y z : Binary64} (hxy : x.sameValue y = true)
    (hyz : y.sameValue z = true) : x.sameValue z = true := by
  rw [sameValue] at hxy hyz ⊢
  simp only [Bool.and_eq_true, Bool.or_eq_true, beq_iff_eq] at hxy hyz ⊢
  refine ⟨hxy.1.trans hyz.1, ?_⟩
  rcases hxy.2 with hsign | hzero
  · exact hyz.2.imp hsign.trans fun h => hxy.1.trans h
  · exact Or.inr hzero

namespace Number

theorem same_refl : ∀ n : Number, n.same n = true
  | .int _ _ => beq_self_eq_true _
  | .float x => x.sameValue_refl

theorem same_symm : ∀ {n m : Number}, n.same m = true → m.same n = true
  | .int _ _, .int _ _, h => by
    rw [same, beq_iff_eq] at h ⊢
    exact h.symm
  | .float x, .float y, h => (y.sameValue_comm x).trans h
  | .int _ _, .float _, h => nomatch h
  | .float _, .int _ _, h => nomatch h

theorem same_trans : ∀ {n m k : Number}, n.same m = true → m.same k = true → n.same k = true
  | .int _ _, .int _ _, .int _ _, h, h' => by
    rw [same, beq_iff_eq] at h h' ⊢
    exact h.trans h'
  | .float _, .float _, .float _, h, h' => Binary64.sameValue_trans h h'
  | .int _ _, .float _, _, h, _ => nomatch h
  | .float _, .int _ _, _, h, _ => nomatch h
  | _, .int _ _, .float _, _, h => nomatch h
  | _, .float _, .int _ _, _, h => nomatch h

end Number

namespace Json

/-! ## What sameness says -/

theorem sameItems_iff : ∀ {xs ys : List Json},
    sameItems xs ys = true ↔ List.Forall₂ (fun x y => x.same y = true) xs ys
  | [], [] => by simp [sameItems]
  | [], _ :: _ => by simp [sameItems]
  | _ :: _, [] => by simp [sameItems]
  | x :: xs, y :: ys => by
    rw [sameItems, Bool.and_eq_true, List.forall₂_cons, sameItems_iff]

theorem sameMembers_iff {ys : Members} : ∀ {xs : Members}, sameMembers xs ys = true ↔
    ∀ entry ∈ xs, ∃ y, get? ys entry.1 = some y ∧ entry.2.same y = true
  | [] => by simp [sameMembers]
  | (key, x) :: xs => by
    rw [sameMembers, Bool.and_eq_true, sameMembers_iff, List.forall_mem_cons]
    refine and_congr_left fun _ => ?_
    rw [get?]
    cases ys.lookup key <;> simp

theorem same_array_iff {xs ys : List Json} : (array xs).same (array ys) = true ↔
    List.Forall₂ (fun x y => x.same y = true) xs ys := by
  rw [same, sameItems_iff]

theorem same_object_iff {xs ys : Members} :
    (object xs).same (object ys) = true ↔ xs.length = ys.length ∧
      ∀ entry ∈ xs, ∃ y, get? ys entry.1 = some y ∧ entry.2.same y = true := by
  rw [same, Bool.and_eq_true, beq_iff_eq, sameMembers_iff]

theorem rel_none_iff {R : Json → Json → Prop} {x y : Option Json} (h : Option.Rel R x y) :
    x = none ↔ y = none := by
  cases h <;> simp

/-- Objects in which every key finds the same are the same. -/
theorem same_object {xs ys : Members} (hxs : (xs.map Prod.fst).Nodup)
    (hys : (ys.map Prod.fst).Nodup)
    (h : ∀ key, Option.Rel (fun x y => x.same y = true) (get? xs key) (get? ys key)) :
    (object xs).same (object ys) = true := by
  have hkeys : ∀ key, key ∈ xs.map Prod.fst ↔ key ∈ ys.map Prod.fst := fun key => by
    rw [← not_iff_not, ← get?_eq_none_iff, ← get?_eq_none_iff]
    exact rel_none_iff (h key)
  refine same_object_iff.mpr ⟨?_, fun entry hentry => ?_⟩
  · have hperm := (List.perm_ext_iff_of_nodup hxs hys).mpr hkeys
    simpa using hperm.length_eq
  · have hkey := h entry.1
    rw [get?_of_mem hxs hentry] at hkey
    generalize get? ys entry.1 = found at hkey
    cases hkey with
    | some hsame => exact ⟨_, rfl, hsame⟩

/-! ## An equivalence -/

mutual

/-- No object in a value has a key twice. -/
def WellKeyed : Json → Prop
  | .array items => ItemsWellKeyed items
  | .object members => (members.map Prod.fst).Nodup ∧ MembersWellKeyed members
  | _ => True

def ItemsWellKeyed : List Json → Prop
  | [] => True
  | item :: rest => WellKeyed item ∧ ItemsWellKeyed rest

def MembersWellKeyed : List (String × Json) → Prop
  | [] => True
  | (_, value) :: rest => WellKeyed value ∧ MembersWellKeyed rest

end

mutual

theorem same_refl : ∀ {x : Json}, x.WellKeyed → x.same x = true
  | .null, _ => rfl
  | .bool _, _ => beq_self_eq_true _
  | .number n, _ => n.same_refl
  | .string _, _ => beq_self_eq_true _
  | .array _, h => same_array_iff.mpr (List.forall₂_same.mpr (items_same_refl h))
  | .object _, h => same_object_iff.mpr ⟨rfl, fun entry hentry =>
      ⟨entry.2, get?_of_mem h.1 hentry, members_same_refl h.2 entry hentry⟩⟩

theorem items_same_refl : ∀ {xs : List Json}, ItemsWellKeyed xs → ∀ x ∈ xs, x.same x = true
  | [], _, _, hmem => nomatch hmem
  | _ :: _, h, x, hmem => by
    rcases List.mem_cons.mp hmem with heq | hmem
    · rw [heq]
      exact same_refl h.1
    · exact items_same_refl h.2 x hmem

theorem members_same_refl : ∀ {xs : List (String × Json)}, MembersWellKeyed xs →
    ∀ entry ∈ xs, entry.2.same entry.2 = true
  | [], _, _, hmem => nomatch hmem
  | (_, _) :: _, h, entry, hmem => by
    rcases List.mem_cons.mp hmem with heq | hmem
    · rw [heq]
      exact same_refl h.1
    · exact members_same_refl h.2 entry hmem

end

mutual

theorem same_trans : ∀ {x y z : Json}, x.same y = true → y.same z = true → x.same z = true
  | .null, y, z, h, h' => by
    cases y with
    | null => exact h'
    | bool | number | string | array | object => cases h
  | .bool a, y, z, h, h' => by
    cases y with
    | bool b =>
      rw [same, beq_iff_eq] at h
      rwa [h]
    | null | number | string | array | object => cases h
  | .string a, y, z, h, h' => by
    cases y with
    | string b =>
      rw [same, beq_iff_eq] at h
      rwa [h]
    | null | bool | number | array | object => cases h
  | .number n, y, z, h, h' => by
    cases y with
    | number m =>
      cases z with
      | number k => exact Number.same_trans h h'
      | null | bool | string | array | object => cases h'
    | null | bool | string | array | object => cases h
  | .array xs, y, z, h, h' => by
    cases y with
    | array ys =>
      cases z with
      | array zs =>
        rw [same_array_iff] at h h' ⊢
        exact items_same_trans h h'
      | null | bool | number | string | object => cases h'
    | null | bool | number | string | object => cases h
  | .object xs, y, z, h, h' => by
    cases y with
    | object ys =>
      cases z with
      | object zs =>
        rw [same_object_iff] at h h' ⊢
        exact ⟨h.1.trans h'.1, members_same_trans h.2 h'.2⟩
      | null | bool | number | string | array => cases h'
    | null | bool | number | string | array => cases h

theorem items_same_trans : ∀ {xs ys zs : List Json},
    List.Forall₂ (fun x y => x.same y = true) xs ys →
      List.Forall₂ (fun x y => x.same y = true) ys zs →
      List.Forall₂ (fun x y => x.same y = true) xs zs
  | [], _, _, .nil, h' => h'
  | _ :: _, _, _, .cons hx hxs, .cons hy hys => .cons (same_trans hx hy) (items_same_trans hxs hys)

theorem members_same_trans : ∀ {xs ys zs : List (String × Json)},
    (∀ entry ∈ xs, ∃ y, get? ys entry.1 = some y ∧ entry.2.same y = true) →
    (∀ entry ∈ ys, ∃ z, get? zs entry.1 = some z ∧ entry.2.same z = true) →
      ∀ entry ∈ xs, ∃ z, get? zs entry.1 = some z ∧ entry.2.same z = true
  | [], _, _, _, _, _, hmem => nomatch hmem
  | (key, x) :: rest, ys, zs, h, h', entry, hmem => by
    obtain ⟨⟨y, hy, hxy⟩, hrest⟩ := List.forall_mem_cons.mp h
    rcases List.mem_cons.mp hmem with heq | hmem
    · obtain ⟨z, hz, hyz⟩ := h' _ (mem_of_get? hy)
      rw [heq]
      exact ⟨z, hz, same_trans hxy hyz⟩
    · exact members_same_trans hrest h' entry hmem

end

/-- Of two objects of one size, the first with different keys, the second has the same keys. -/
theorem keys_perm_of_same {xs ys : Members} (hxs : (xs.map Prod.fst).Nodup)
    (h : (object xs).same (object ys) = true) : (xs.map Prod.fst).Perm (ys.map Prod.fst) := by
  obtain ⟨hlength, hmembers⟩ := same_object_iff.mp h
  refine (hxs.subperm fun key hkey => ?_).perm_of_length_le (by simp [hlength])
  obtain ⟨entry, hentry, rfl⟩ := List.mem_map.mp hkey
  obtain ⟨y, hy, -⟩ := hmembers entry hentry
  exact List.mem_map.mpr ⟨_, mem_of_get? hy, rfl⟩

mutual

theorem same_symm : ∀ {x y : Json}, x.WellKeyed → x.same y = true → y.same x = true
  | .null, y, _, h => by
    cases y with
    | null => rfl
    | bool | number | string | array | object => cases h
  | .bool a, y, _, h => by
    cases y with
    | bool b =>
      rw [same, beq_iff_eq] at h ⊢
      exact h.symm
    | null | number | string | array | object => cases h
  | .string a, y, _, h => by
    cases y with
    | string b =>
      rw [same, beq_iff_eq] at h ⊢
      exact h.symm
    | null | bool | number | array | object => cases h
  | .number n, y, _, h => by
    cases y with
    | number m => exact Number.same_symm h
    | null | bool | string | array | object => cases h
  | .array xs, y, hwell, h => by
    cases y with
    | array ys =>
      rw [same_array_iff] at h ⊢
      exact items_same_symm hwell h
    | null | bool | number | string | object => cases h
  | .object xs, y, hwell, h => by
    cases y with
    | object ys =>
      have hperm := keys_perm_of_same hwell.1 h
      have hys := hperm.nodup_iff.mp hwell.1
      obtain ⟨hlength, hmembers⟩ := same_object_iff.mp h
      refine same_object_iff.mpr ⟨hlength.symm, fun entry hentry => ?_⟩
      -- The key of a member on the right has a member on the left, and this one's equal is it.
      obtain ⟨found, hfound, hkey⟩ :=
        List.mem_map.mp (hperm.mem_iff.mpr (List.mem_map_of_mem hentry))
      obtain ⟨y, hy, hsame⟩ := hmembers found hfound
      rw [hkey, get?_of_mem hys hentry] at hy
      cases hy
      exact ⟨found.2, hkey ▸ get?_of_mem hwell.1 hfound,
        members_same_symm hwell.2 found hfound _ hsame⟩
    | null | bool | number | string | array => cases h

theorem items_same_symm : ∀ {xs ys : List Json}, ItemsWellKeyed xs →
    List.Forall₂ (fun x y => x.same y = true) xs ys →
      List.Forall₂ (fun x y => x.same y = true) ys xs
  | [], _, _, .nil => .nil
  | _ :: _, _, hwell, .cons hx hxs => .cons (same_symm hwell.1 hx) (items_same_symm hwell.2 hxs)

theorem members_same_symm : ∀ {xs : List (String × Json)}, MembersWellKeyed xs →
    ∀ entry ∈ xs, ∀ y : Json, entry.2.same y = true → y.same entry.2 = true
  | [], _, _, hmem, _, _ => nomatch hmem
  | (_, _) :: _, hwell, entry, hmem, y, h => by
    rcases List.mem_cons.mp hmem with heq | hmem
    · rw [heq] at h ⊢
      exact same_symm hwell.1 h
    · exact members_same_symm hwell.2 entry hmem y h

end

end Json
end NestedRead
