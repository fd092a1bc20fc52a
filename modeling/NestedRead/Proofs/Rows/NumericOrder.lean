import NestedRead.Proofs.Number.ExactValue
import NestedRead.Proofs.Rows.EntityIdOrder

/-!
# The order of numeric ids

Numbers are compared on the line of floats, integers and floats each among themselves exactly. An
integer next to a float is rounded first, and this does not carry it past the float; but it may lay
it on the float, and an integer goes before a float in the same place. That is its place by value
where it was rounded up. Where it was rounded down, it is greater than the float and still goes
before it (`Number.RoundsDownTo`). Integers of up to 53 bits are not rounded at all.
-/

set_option autoImplicit false

namespace NestedRead

/-! ## Values of numbers -/

namespace Number

/-- The exact value, counted in the units of the float format. -/
def units : Number → Int
  | .int n _ => n * Binary64.unitsPerOne
  | .float x => x.units

/-- The first number is an integer, the second a float below it, and the integer is rounded to
this float. -/
def RoundsDownTo : Number → Number → Prop
  | .int n _, .float x => x.key = Binary64.keyOfInt n ∧ x.units < n * Binary64.unitsPerOne
  | _, _ => False

instance : ∀ a b : Number, Decidable (a.RoundsDownTo b)
  | .int _ _, .float _ => inferInstanceAs (Decidable (_ ∧ _))
  | .int _ _, .int _ _ => inferInstanceAs (Decidable False)
  | .float _, .int _ _ => inferInstanceAs (Decidable False)
  | .float _, .float _ => inferInstanceAs (Decidable False)

/-- Only integers that the float format may not hold are rounded down. -/
theorem RoundsDownTo.large {a b : Number} (h : a.RoundsDownTo b) :
    ∃ n hn, a = .int n hn ∧ 2 ^ 53 < n.natAbs := by
  cases a with
  | float x => cases h
  | int n hn =>
    cases b with
    | int m hm => cases h
    | float x =>
      refine ⟨n, hn, rfl, Nat.lt_of_not_le fun hle => ?_⟩
      have hexact := Binary64.units_of_key_eq hle h.1
      exact Int.ne_of_lt h.2 hexact

end Number

namespace EntityId

/-! ## Numbers as ids -/

/-- The id that a number is. -/
def ofNumber : Number → EntityId
  | .int n _ => .integer n
  | .float x => .float x

theorem ofJson_number (a : Number) : ofJson (.number a) = .ok (some (ofNumber a)) := by
  cases a <;> rfl

theorem compare_units_int (m n : Int) :
    compare (m * Binary64.unitsPerOne : Int) (n * Binary64.unitsPerOne) = compare m n := by
  have hpos : (0 : Int) < Binary64.unitsPerOne := Int.natCast_pos.mpr Binary64.unitsPerOne_pos
  rcases Int.lt_trichotomy m n with h | h | h
  · rw [Int.compare_eq_lt.mpr h, Int.compare_eq_lt.mpr (Int.mul_lt_mul_of_pos_right h hpos)]
  · rw [h, Int.compare_eq_eq.mpr rfl, Int.compare_eq_eq.mpr rfl]
  · rw [Int.compare_eq_gt.mpr h, Int.compare_eq_gt.mpr (Int.mul_lt_mul_of_pos_right h hpos)]

/-- Floats with different values are compared as their values are. -/
theorem cmp_float_float {x y : Binary64} (h : x.units ≠ y.units) :
    cmp (.float x) (.float y) = compare x.units y.units := by
  rw [cmp]
  rcases Int.lt_or_gt_of_ne h with hlt | hgt
  · rw [Int.compare_eq_lt.mpr hlt, Int.compare_eq_lt.mpr (Binary64.key_lt_of_units_lt hlt)]
  · rw [Int.compare_eq_gt.mpr hgt, Int.compare_eq_gt.mpr (Binary64.key_lt_of_units_lt hgt)]

/-- An integer and a float are compared as their values are, unless the integer is rounded down
onto the float. -/
theorem cmp_integer_float {n : Int} (hn : Number.InRange n) {x : Binary64}
    (h : n * Binary64.unitsPerOne ≠ x.units) :
    cmp (.integer n) (.float x) = if Number.RoundsDownTo (.int n hn) (.float x) then .lt
      else compare (n * Binary64.unitsPerOne : Int) x.units := by
  rw [cmp]
  rcases Int.lt_or_gt_of_ne h with hlt | hgt
  · have hnot : ¬ Number.RoundsDownTo (.int n hn) (.float x) := fun hdown =>
      Int.lt_asymm hdown.2 hlt
    rw [if_neg hnot, Int.compare_eq_lt.mpr hlt]
    -- In the same place or before it, the integer goes first.
    cases hkey : compare (Binary64.keyOfInt n) x.key with
    | lt | eq => rfl
    | gt =>
      exact absurd (Int.compare_eq_gt.mp hkey) (Int.not_lt.mpr (Binary64.keyOfInt_le_key hlt))
  · by_cases hkey : x.key = Binary64.keyOfInt n
    · rw [if_pos ⟨hkey, hgt⟩, hkey, Int.compare_eq_eq.mpr rfl]
      rfl
    · have hnot : ¬ Number.RoundsDownTo (.int n hn) (.float x) := fun hdown => hkey hdown.1
      have hlt := Int.lt_iff_le_and_ne.mpr ⟨Binary64.key_le_keyOfInt hgt, hkey⟩
      rw [if_neg hnot, Int.compare_eq_gt.mpr hgt, Int.compare_eq_gt.mpr hlt]
      rfl

/-- **Numeric ids are in the order of their exact values**, but for an integer of more than 53 bits
that is rounded down onto a float: it goes before this float. Every number goes before every
text. -/
theorem ofJson_number_order {a b : Number} (h : a.units ≠ b.units) :
    ∃ i j, ofJson (.number a) = .ok (some i) ∧ ofJson (.number b) = .ok (some j) ∧
      cmp i j = (if a.RoundsDownTo b then .lt else if b.RoundsDownTo a then .gt
        else compare a.units b.units) ∧
      (a.RoundsDownTo b → ∃ n hn, a = .int n hn ∧ 2 ^ 53 < n.natAbs) ∧
      ∀ s, cmp i (.text s) = .lt ∧ cmp (.text s) i = .gt := by
  refine ⟨_, _, ofJson_number a, ofJson_number b, ?_, Number.RoundsDownTo.large, fun s => ?_⟩
  · cases a with
    | int m hm =>
      cases b with
      | int n hn => exact (compare_units_int m n).symm
      | float y => exact cmp_integer_float hm h
    | float x =>
      cases b with
      | int n hn =>
        -- The same comparison from the other side.
        have hswap : cmp (.float x) (.integer n) = (cmp (.integer n) (.float x)).swap :=
          Std.OrientedCmp.eq_swap
        have hvalues : compare x.units (n * Binary64.unitsPerOne) =
            (compare (n * Binary64.unitsPerOne : Int) x.units).swap := Std.OrientedCmp.eq_swap
        show cmp (.float x) (.integer n) = if Number.RoundsDownTo (.int n hn) (.float x) then .gt
          else compare x.units (n * Binary64.unitsPerOne)
        rw [hswap, cmp_integer_float hn (Ne.symm h), apply_ite Ordering.swap, hvalues]
        rfl
      | float y => exact cmp_float_float h
  · cases a <;> exact ⟨rfl, rfl⟩

end EntityId

/-! ## Integers that are rounded -/

namespace Sample

/-- Greater by one than the float in whose place it is. -/
def roundedDown : Number := .int 9007199254740993 (by decide)

/-- Less by one than the float in whose place it is. -/
def roundedUp : Number := .int 9007199254740995 (by decide)

/-- `2 ^ 53`. -/
def lowerFloat : Binary64 := ⟨false, 1076 * 4503599627370496, by decide⟩

/-- `2 ^ 53 + 4`. -/
def upperFloat : Binary64 := ⟨false, 1076 * 4503599627370496 + 2, by decide⟩

end Sample

/-- Rounded up, the integer goes before the float as its value does. -/
theorem EntityId.ofJson_number_order_roundedUp :
    Sample.roundedUp.units < (Number.float Sample.upperFloat).units ∧
    ∃ i j, ofJson (.number Sample.roundedUp) = .ok (some i) ∧
      ofJson (.number (.float Sample.upperFloat)) = .ok (some j) ∧
      cmp i j = compare Sample.roundedUp.units (Number.float Sample.upperFloat).units := by
  have hless : Sample.roundedUp.units < (Number.float Sample.upperFloat).units := by decide +kernel
  obtain ⟨i, j, hi, hj, horder, -⟩ := EntityId.ofJson_number_order (Int.ne_of_lt hless)
  refine ⟨hless, i, j, hi, hj, ?_⟩
  rw [horder, if_neg (by decide +kernel), if_neg (by decide +kernel)]

/-- Rounded down, it goes before a float that is less. -/
theorem EntityId.not_exact_order : ¬ ∀ a b : Number, a.units ≠ b.units → ∀ i j,
    ofJson (.number a) = .ok (some i) → ofJson (.number b) = .ok (some j) →
      cmp i j = compare a.units b.units := by
  intro h
  have hgreater : (Number.float Sample.lowerFloat).units < Sample.roundedDown.units := by
    decide +kernel
  have horder := h _ _ (Int.ne_of_gt hgreater) _ _ (EntityId.ofJson_number Sample.roundedDown)
    (EntityId.ofJson_number (.float Sample.lowerFloat))
  rw [Int.compare_eq_gt.mpr hgreater] at horder
  have hless : cmp (ofNumber Sample.roundedDown) (ofNumber (.float Sample.lowerFloat)) = .lt := by
    decide +kernel
  rw [hless] at horder
  cases horder

end NestedRead
