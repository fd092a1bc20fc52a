import NestedRead.Proofs.Number.IntegerRounding
import NestedRead.Rows.EntityId

/-!
# Ids are in a total order

The comparison of ids is lexicographic: text after numbers, then the place on the line of floats,
then integers before the float in the same place, then the integer or the text itself. Written out
case by case the comparison of two integers does not look at the line at all; that it may be left
out is `Binary64.keyOfInt_mono`. From the lexicographic form transitivity and orientation are those
of its parts, and two ids that compare equal are the same.
-/

set_option autoImplicit false

namespace NestedRead

theorem Binary64.key_inj {x y : Binary64} (h : x.key = y.key) : x = y := by
  obtain ⟨xs, xm, hx⟩ := x
  obtain ⟨ys, ym, hy⟩ := y
  unfold Binary64.key at h
  cases xs <;> cases ys <;> simp at h ⊢ <;> omega

namespace EntityId

/-! ## The parts of the comparison -/

/-- Text comes after numbers. -/
def kindRank : EntityId → Nat
  | .integer _ | .float _ => 0
  | .text _ => 1

/-- The place of a number on the line of floats. -/
def lineRank : EntityId → Int
  | .integer n => Binary64.keyOfInt n
  | .float x => x.key
  | .text _ => 0

/-- In one place the integers come first. -/
def formRank : EntityId → Nat
  | .integer _ => 0
  | .float _ => 1
  | .text _ => 0

def integerRank : EntityId → Int
  | .integer n => n
  | .float _ | .text _ => 0

def textRank : EntityId → String
  | .text s => s
  | .integer _ | .float _ => ""

/-- Integers that differ on the line differ the same way as integers. -/
theorem compare_keyOfInt_then (m n : Int) :
    (compare (Binary64.keyOfInt m) (Binary64.keyOfInt n)).then (compare m n) = compare m n := by
  rcases Int.lt_trichotomy m n with h | h | h
  · have hle := Binary64.keyOfInt_mono (Int.le_of_lt h)
    rw [Int.compare_eq_lt.mpr h]
    cases hkey : compare (Binary64.keyOfInt m) (Binary64.keyOfInt n) with
    | lt | eq => rfl
    | gt => exact absurd (Int.compare_eq_gt.mp hkey) (Int.not_lt.mpr hle)
  · rw [h, Int.compare_eq_eq.mpr rfl]
    rfl
  · have hle := Binary64.keyOfInt_mono (Int.le_of_lt h)
    rw [Int.compare_eq_gt.mpr h]
    cases hkey : compare (Binary64.keyOfInt m) (Binary64.keyOfInt n) with
    | eq | gt => rfl
    | lt => exact absurd (Int.compare_eq_lt.mp hkey) (Int.not_lt.mpr hle)

/-- The comparison of ids is lexicographic in its parts. -/
theorem cmp_eq_lex : cmp = compareLex (compareOn kindRank) (compareLex (compareOn lineRank)
    (compareLex (compareOn formRank) (compareLex (compareOn integerRank)
      (compareOn textRank)))) := by
  funext a b
  have hlt : compare (0 : Nat) 1 = .lt := rfl
  have hgt : compare (1 : Nat) 0 = .gt := rfl
  cases a <;> cases b <;> simp [cmp, compareLex, compareOn, kindRank, lineRank, formRank,
    integerRank, textRank, compare_keyOfInt_then, hlt, hgt]

/-! ## The laws -/

instance : Std.TransCmp cmp := by
  rw [cmp_eq_lex]
  infer_instance

instance : Std.LawfulEqCmp cmp where
  compare_self := Std.ReflCmp.compare_self
  eq_of_compare {a b} h := by
    rw [cmp_eq_lex] at h
    simp only [compareLex, compareOn, Ordering.then_eq_eq, Std.compare_eq_iff_eq] at h
    obtain ⟨hkind, hline, hform, hinteger, htext⟩ := h
    cases a <;> cases b <;>
      simp [kindRank, formRank, integerRank, textRank, lineRank] at hkind hform hinteger htext hline
    · exact congrArg integer hinteger
    · exact congrArg float (Binary64.key_inj hline)
    · exact congrArg text htext

end EntityId
end NestedRead
