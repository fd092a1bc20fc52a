import Mathlib.Algebra.Group.Nat.Defs
import NestedRead.Binary64

/-!
# Integers keep their order when they are rounded

An integer that is compared with a float is rounded to the float's format first. Rounding can make
two integers equal but never turns their order around. For a natural `n` the binade is that of its
binary logarithm, and inside a binade the significand is a quotient by a fixed power of two, so
there the order is that of `divideHalfEven`. From one binade to the next the significands run from
`2 ^ 52` to `2 ^ 53`, and the upper end of one is the lower end of the next.
-/

set_option autoImplicit false

namespace NestedRead.Binary64

/-! ## Quotients -/

theorem divideHalfEven_bounds (num den : Nat) :
    num / den ≤ divideHalfEven num den ∧ divideHalfEven num den ≤ num / den + 1 := by
  unfold divideHalfEven
  dsimp only
  split
  · omega
  · split <;> omega

/-- A greater dividend does not give a smaller quotient. -/
theorem divideHalfEven_mono {a b den : Nat} (h : a ≤ b) :
    divideHalfEven a den ≤ divideHalfEven b den := by
  have hdiv : a / den ≤ b / den := Nat.div_le_div_right h
  rcases Nat.lt_or_eq_of_le hdiv with hlt | heq
  · have ha := (divideHalfEven_bounds a den).2
    have hb := (divideHalfEven_bounds b den).1
    omega
  · have hmod : a % den ≤ b % den := by
      have ha := Nat.div_add_mod a den
      have hb := Nat.div_add_mod b den
      rw [heq] at ha
      omega
    unfold divideHalfEven
    dsimp only
    rw [heq]
    split <;> split <;> (try split) <;> (try split) <;> omega

/-! ## Naturals -/

/-- The significand that a natural is rounded to. -/
def naturalSignificand (n : Nat) : Nat :=
  divideHalfEven (n * 2 ^ (52 - Nat.log2 n)) (2 ^ (Nat.log2 n - 52))

/-- The logarithm of a natural as a quotient is its binary logarithm. -/
theorem log2Ratio_one {n : Nat} (hn : n ≠ 0) : log2Ratio n 1 = Nat.log2 n := by
  have hle := Nat.log2_self_le hn
  unfold log2Ratio
  rw [show Nat.log2 1 = 0 from by decide, Int.ofNat_zero, Int.sub_zero]
  dsimp only
  rw [Int.toNat_neg_natCast, Int.toNat_natCast, if_neg]
  rw [show pow2 0 = 1 from rfl, Nat.mul_one, Nat.one_mul]
  exact Nat.not_lt.mpr hle

/-- The binade of a natural is that of its binary logarithm. -/
theorem roundRatio_one {n : Nat} (hn : n ≠ 0) :
    roundRatio n 1 = (Nat.log2 n + 1022) * 2 ^ 52 + naturalSignificand n := by
  have hmax : max ((Nat.log2 n : Int) - 52) (-1074) = (Nat.log2 n : Int) - 52 := by omega
  have hdown : (-((Nat.log2 n : Int) - 52)).toNat = 52 - Nat.log2 n := by omega
  have hup : ((Nat.log2 n : Int) - 52).toNat = Nat.log2 n - 52 := by omega
  have hfield : ((Nat.log2 n : Int) - 52 + 1074).toNat = Nat.log2 n + 1022 := by omega
  unfold roundRatio naturalSignificand
  dsimp only
  rw [if_neg hn, log2Ratio_one hn, hmax, hdown, hup, hfield, Nat.one_mul]
  rfl

/-- The significand of a natural lies between two neighbouring powers of two. -/
theorem naturalSignificand_bounds {n : Nat} (hn : n ≠ 0) :
    2 ^ 52 ≤ naturalSignificand n ∧ naturalSignificand n ≤ 2 ^ 53 := by
  have hlow := Nat.log2_self_le hn
  have hhigh := Nat.lt_log2_self (n := n)
  unfold naturalSignificand
  generalize Nat.log2 n = L at hlow hhigh
  obtain ⟨hfloor, hceil⟩ := divideHalfEven_bounds (n * 2 ^ (52 - L)) (2 ^ (L - 52))
  -- Scaled to the format the natural has 53 binary digits.
  have hge : 2 ^ 52 ≤ n * 2 ^ (52 - L) / 2 ^ (L - 52) := by
    rw [Nat.le_div_iff_mul_le (Nat.two_pow_pos _), ← Nat.pow_add]
    calc 2 ^ (52 + (L - 52)) = 2 ^ (L + (52 - L)) := by congr 1; omega
      _ = 2 ^ L * 2 ^ (52 - L) := Nat.pow_add ..
      _ ≤ n * 2 ^ (52 - L) := Nat.mul_le_mul_right _ hlow
  have hlt : n * 2 ^ (52 - L) / 2 ^ (L - 52) < 2 ^ 53 := by
    rw [Nat.div_lt_iff_lt_mul (Nat.two_pow_pos _), ← Nat.pow_add]
    calc n * 2 ^ (52 - L) < 2 ^ (L + 1) * 2 ^ (52 - L) :=
          Nat.mul_lt_mul_of_pos_right hhigh (Nat.two_pow_pos _)
      _ = 2 ^ (L + 1 + (52 - L)) := (Nat.pow_add ..).symm
      _ = 2 ^ (53 + (L - 52)) := by congr 1; omega
  exact ⟨Nat.le_trans hge hfloor, Nat.le_trans hceil hlt⟩

/-- Rounding keeps the order of naturals. -/
theorem roundRatio_one_mono {a b : Nat} (h : a ≤ b) : roundRatio a 1 ≤ roundRatio b 1 := by
  by_cases ha : a = 0
  · rw [ha, roundRatio, if_pos rfl]
    exact Nat.zero_le _
  have hb : b ≠ 0 := by omega
  rw [roundRatio_one ha, roundRatio_one hb]
  have hlog : Nat.log2 a ≤ Nat.log2 b := (Nat.le_log2 hb).mpr (Nat.le_trans (Nat.log2_self_le ha) h)
  rcases Nat.lt_or_eq_of_le hlog with hlt | heq
  · have hmax := (naturalSignificand_bounds ha).2
    have hmin := (naturalSignificand_bounds hb).1
    omega
  · have hmono : naturalSignificand a ≤ naturalSignificand b := by
      unfold naturalSignificand
      rw [heq]
      exact divideHalfEven_mono (Nat.mul_le_mul_right _ h)
    omega

/-! ## Integers -/

/-- Rounding keeps the order of integers. -/
theorem keyOfInt_mono {a b : Int} (h : a ≤ b) : keyOfInt a ≤ keyOfInt b := by
  unfold keyOfInt
  split
  · split
    · have := roundRatio_one_mono (show b.natAbs ≤ a.natAbs by omega)
      omega
    · omega
  · rw [if_neg (by omega)]
    have := roundRatio_one_mono (show a.natAbs ≤ b.natAbs by omega)
    omega

end NestedRead.Binary64
