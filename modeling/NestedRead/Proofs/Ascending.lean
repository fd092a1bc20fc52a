import Mathlib.Data.List.Sort
import NestedRead.Ordered

/-!
# Ascending lists without repeats

`Ordered.insertNew` keeps a list strictly ascending and adds one member to it. A strictly ascending
list is known by its members, so a list that grew by insertions is the one ascending list of all
that was inserted, in whatever order it came.
-/

set_option autoImplicit false

namespace NestedRead.Ordered

variable {α : Type} {cmp : α → α → Ordering}

/-- Each item is less than all items behind it. -/
def Ascending (cmp : α → α → Ordering) (xs : List α) : Prop :=
  xs.Pairwise fun x y => cmp x y = .lt

/-- An item is in its place afterwards, and nothing else has come or gone. -/
theorem mem_insertNew [Std.LawfulEqCmp cmp] {x y : α} {xs : List α} :
    y ∈ insertNew cmp x xs ↔ y = x ∨ y ∈ xs := by
  induction xs with
  | nil => simp [insertNew]
  | cons z zs ih =>
    rw [insertNew]
    split
    · rw [List.mem_cons]
    · rename_i heq
      rw [Std.LawfulEqCmp.eq_of_compare heq]
      simp
    · rw [List.mem_cons, ih, List.mem_cons]
      exact or_left_comm

theorem insertNew_ne_nil (x : α) (xs : List α) : insertNew cmp x xs ≠ [] := by
  cases xs with
  | nil => simp [insertNew]
  | cons z zs => rw [insertNew]; split <;> simp

theorem ascending_insertNew [Std.TransCmp cmp] [Std.LawfulEqCmp cmp] {x : α} {xs : List α}
    (h : Ascending cmp xs) : Ascending cmp (insertNew cmp x xs) := by
  induction xs with
  | nil => exact List.pairwise_singleton _ _
  | cons z zs ih =>
    obtain ⟨hz, hzs⟩ := List.pairwise_cons.mp h
    rw [insertNew]
    split
    · rename_i hlt
      refine List.pairwise_cons.mpr ⟨fun y hy => ?_, h⟩
      rcases List.mem_cons.mp hy with rfl | hy
      · exact hlt
      · exact Std.TransCmp.lt_trans hlt (hz y hy)
    · exact h
    · rename_i hgt
      refine List.pairwise_cons.mpr ⟨fun y hy => ?_, ih hzs⟩
      rcases mem_insertNew.mp hy with rfl | hy
      · exact Std.OrientedCmp.lt_of_gt hgt
      · exact hz y hy

/-- No item is less than itself, so none is there twice. -/
theorem Ascending.nodup [Std.ReflCmp cmp] {xs : List α} (h : Ascending cmp xs) : xs.Nodup := by
  refine h.imp fun {x y} hlt heq => ?_
  have hself : cmp y y = .eq := Std.ReflCmp.compare_self
  rw [heq, hself] at hlt
  cases hlt

/-- Ascending lists with the same members are the same. -/
theorem Ascending.ext [Std.TransCmp cmp] {xs ys : List α} (hxs : Ascending cmp xs)
    (hys : Ascending cmp ys) (h : ∀ x, x ∈ xs ↔ x ∈ ys) : xs = ys := by
  have : Std.Irrefl fun x y : α => cmp x y = .lt :=
    ⟨fun x hx => by
      have hself : cmp x x = .eq := Std.ReflCmp.compare_self
      rw [hself] at hx
      cases hx⟩
  have : Std.Antisymm fun x y : α => cmp x y = .lt :=
    ⟨fun x y hxy hyx => by
      rw [Std.OrientedCmp.gt_of_lt hxy] at hyx
      cases hyx⟩
  exact List.Pairwise.eq_of_mem_iff hxs hys h

/-- An item that is in its place already is not inserted. -/
theorem insertNew_of_mem [Std.TransCmp cmp] [Std.LawfulEqCmp cmp] {x : α} {xs : List α}
    (h : Ascending cmp xs) (hx : x ∈ xs) : insertNew cmp x xs = xs := by
  refine (ascending_insertNew h).ext h fun y => ?_
  rw [mem_insertNew, or_iff_right_of_imp]
  rintro rfl
  exact hx

end NestedRead.Ordered
