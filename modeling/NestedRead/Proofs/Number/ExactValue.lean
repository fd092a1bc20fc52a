import Mathlib.Algebra.Group.Nat.Defs
import Mathlib.Order.Monotone.Basic
import NestedRead.Proofs.Number.IntegerRounding

/-!
# Rounding an integer and the values of floats

The floats stand on a line in the order of their exact values, and an integer that is rounded takes
the place of one of them. What is below the integer is not above that place, and what is above the
integer is not below it: `key_le_keyOfInt` and `keyOfInt_le_key`. So rounding can lay an integer on
a float, but it cannot carry it past one.

Values are counted in `2 ^ -1074`. A magnitude is a field for its binade and a significand, and
`magnitudeUnits_binade` is the one place where they are read. Where the significand ends, at
`2 ^ 53`, the next binade begins with the same value, so its lemmas include that end.
-/

set_option autoImplicit false

namespace NestedRead.Binary64

/-! ## The line of magnitudes -/

/-- The unit is `2` to this power, negated. The power is large, so it stays folded. -/
@[irreducible]
def unitExponent : Nat := 1074

theorem unitExponent_eq : unitExponent = 1074 := by
  unfold unitExponent
  rfl

/-- How many units make one. -/
def unitsPerOne : Nat := pow2 unitExponent

theorem pow2_pos (n : Nat) : 0 < pow2 n := Nat.two_pow_pos n

theorem pow2_eq {a b c : Nat} (h : a + b = c) : pow2 c = 2 ^ a * 2 ^ b := by
  rw [← h]
  exact Nat.pow_add 2 a b

theorem unitsPerOne_pos : 0 < unitsPerOne := pow2_pos unitExponent

theorem unitsPerOne_eq {a b : Nat} (h : a + b = unitExponent) : unitsPerOne = 2 ^ a * 2 ^ b :=
  pow2_eq h

/-- The absolute value that belongs to a magnitude, in units. -/
def magnitudeUnits (m : Nat) : Nat := significand m * pow2 (exponent m + 1074).toNat

theorem magnitudeUnits_subnormal {m : Nat} (hm : m < 2 ^ 52) : magnitudeUnits m = m := by
  have hm' : m < pow2 52 := hm
  rw [magnitudeUnits, significand, exponent, if_pos hm', if_pos hm']
  exact Nat.mul_one m

theorem magnitudeUnits_zero : magnitudeUnits 0 = 0 := magnitudeUnits_subnormal (by decide)

/-- The hidden bit stands before the stored ones, and the field counts from one. -/
theorem magnitudeUnits_normal {k f : Nat} (hf : f < 2 ^ 52) :
    magnitudeUnits ((k + 1) * 2 ^ 52 + f) = (2 ^ 52 + f) * 2 ^ k := by
  have hdiv : ((k + 1) * 2 ^ 52 + f) / pow2 52 = k + 1 := by
    show ((k + 1) * 2 ^ 52 + f) / 2 ^ 52 = k + 1
    omega
  have hmod : ((k + 1) * 2 ^ 52 + f) % pow2 52 = f := by
    show ((k + 1) * 2 ^ 52 + f) % 2 ^ 52 = f
    omega
  have hge : ¬ (k + 1) * 2 ^ 52 + f < pow2 52 := by
    show ¬ (k + 1) * 2 ^ 52 + f < 2 ^ 52
    omega
  have hexp : (((k + 1 : Nat) : Int) - 1075 + 1074).toNat = k := by omega
  rw [magnitudeUnits, significand, exponent, if_neg hge, if_neg hge, hdiv, hmod, hexp]
  rfl

/-- A significand of 53 bits counts in the power of two of its binade. -/
theorem magnitudeUnits_binade {e s : Nat} (hlow : 2 ^ 52 ≤ s) (hhigh : s ≤ 2 ^ 53) :
    magnitudeUnits (e * 2 ^ 52 + s) = s * 2 ^ e := by
  rcases Nat.lt_or_eq_of_le hhigh with hlt | rfl
  · have hs : e * 2 ^ 52 + s = (e + 1) * 2 ^ 52 + (s - 2 ^ 52) := by omega
    rw [hs, magnitudeUnits_normal (by omega), Nat.add_sub_cancel' hlow]
  · -- The end of the binade is the beginning of the next one.
    have hs : e * 2 ^ 52 + 2 ^ 53 = (e + 1 + 1) * 2 ^ 52 + 0 := by omega
    rw [hs, magnitudeUnits_normal (by decide), Nat.pow_succ]
    omega

/-- A greater magnitude has a greater value. -/
theorem magnitudeUnits_strictMono : StrictMono magnitudeUnits := by
  refine strictMono_nat_of_lt_succ fun m => ?_
  rcases Nat.lt_or_ge (m + 1) (2 ^ 52) with hlt | hge
  · rw [magnitudeUnits_subnormal hlt, magnitudeUnits_subnormal (Nat.lt_of_succ_lt hlt)]
    exact Nat.lt_succ_self m
  rcases Nat.lt_or_ge m (2 ^ 52) with hlt | hge'
  · have hnext := magnitudeUnits_binade (e := 0) hge (by omega)
    rw [Nat.zero_mul, Nat.zero_add] at hnext
    rw [hnext, magnitudeUnits_subnormal hlt]
    omega
  · obtain ⟨e, s, rfl, hlow, hhigh⟩ : ∃ e s, m = e * 2 ^ 52 + s ∧ 2 ^ 52 ≤ s ∧ s < 2 ^ 53 :=
      ⟨m / 2 ^ 52 - 1, 2 ^ 52 + m % 2 ^ 52, by omega, by omega, by omega⟩
    rw [Nat.add_assoc, magnitudeUnits_binade hlow (Nat.le_of_lt hhigh),
      magnitudeUnits_binade (Nat.le_succ_of_le hlow) hhigh]
    exact Nat.mul_lt_mul_of_pos_right (Nat.lt_succ_self s) (Nat.two_pow_pos e)

/-! ## Quotients between multiples of the divisor -/

theorem le_divideHalfEven {k num den : Nat} (hden : 0 < den) (h : k * den ≤ num) :
    k ≤ divideHalfEven num den :=
  Nat.le_trans ((Nat.le_div_iff_mul_le hden).mpr h) (divideHalfEven_bounds num den).1

theorem divideHalfEven_mul {k den : Nat} (hden : 0 < den) : divideHalfEven (k * den) den = k := by
  have hmod : k * den % den = 0 := Nat.mul_mod_left k den
  rw [divideHalfEven, Nat.mul_div_cancel k hden, hmod]
  exact if_pos hden

/-- A quotient without a remainder is exact. -/
theorem divideHalfEven_of_dvd {num den : Nat} (hden : 0 < den) (h : den ∣ num) :
    divideHalfEven num den * den = num := by
  obtain ⟨k, rfl⟩ := h
  rw [Nat.mul_comm den k, divideHalfEven_mul hden]

theorem divideHalfEven_le {k num den : Nat} (hden : 0 < den) (h : num ≤ k * den) :
    divideHalfEven num den ≤ k :=
  Nat.le_trans (divideHalfEven_mono h) (Nat.le_of_eq (divideHalfEven_mul hden))

/-! ## Naturals between magnitudes -/

/-- A natural in units and a significand in the binade of its logarithm, scaled to the division
that rounds the one to the other. -/
theorem exists_scale (n : Nat) : ∃ c, 0 < c ∧
    n * unitsPerOne = n * 2 ^ (52 - Nat.log2 n) * c ∧
    ∀ k, k * 2 ^ (Nat.log2 n + 1022) = k * 2 ^ (Nat.log2 n - 52) * c := by
  generalize Nat.log2 n = L
  refine ⟨2 ^ (1074 - (52 - L)), Nat.two_pow_pos _, ?_, fun k => ?_⟩
  · have hunit : 52 - L + (1074 - (52 - L)) = unitExponent := by
      rw [unitExponent_eq]
      omega
    rw [unitsPerOne_eq hunit, Nat.mul_assoc]
  · rw [Nat.mul_assoc, ← Nat.pow_add, show L - 52 + (1074 - (52 - L)) = L + 1022 by omega]

/-- A significand that is not above the natural is not above the one that it is rounded to. -/
theorem le_naturalSignificand {n k : Nat}
    (h : k * 2 ^ (Nat.log2 n + 1022) ≤ n * unitsPerOne) : k ≤ naturalSignificand n := by
  obtain ⟨c, hc, hnatural, hsignificand⟩ := exists_scale n
  rw [hnatural, hsignificand] at h
  exact le_divideHalfEven (Nat.two_pow_pos _) (Nat.le_of_mul_le_mul_right h hc)

theorem naturalSignificand_le {n k : Nat}
    (h : n * unitsPerOne ≤ k * 2 ^ (Nat.log2 n + 1022)) : naturalSignificand n ≤ k := by
  obtain ⟨c, hc, hnatural, hsignificand⟩ := exists_scale n
  rw [hnatural, hsignificand] at h
  exact divideHalfEven_le (Nat.two_pow_pos _) (Nat.le_of_mul_le_mul_right h hc)

section naturals

variable {n : Nat} (hn : n ≠ 0)

include hn

/-- A natural lies in the binade of its logarithm. -/
theorem binade_bounds : 2 ^ 52 * 2 ^ (Nat.log2 n + 1022) ≤ n * unitsPerOne ∧
    n * unitsPerOne < 2 ^ 53 * 2 ^ (Nat.log2 n + 1022) := by
  have hlow := Nat.mul_le_mul_right unitsPerOne (Nat.log2_self_le hn)
  have hhigh := Nat.mul_lt_mul_of_pos_right (Nat.lt_log2_self (n := n)) unitsPerOne_pos
  have hstart : ∀ b, 52 + b = unitExponent →
      2 ^ 52 * 2 ^ (Nat.log2 n + b) = 2 ^ Nat.log2 n * unitsPerOne :=
    fun b hb => by rw [unitsPerOne_eq hb, Nat.pow_add, Nat.mul_left_comm]
  have hstart := hstart 1022 unitExponent_eq.symm
  rw [Nat.pow_succ, Nat.mul_right_comm] at hhigh
  generalize 2 ^ Nat.log2 n * unitsPerOne = start at hlow hhigh hstart
  omega

/-- The value of a rounded natural: its significand in its binade. -/
theorem magnitudeUnits_roundRatio_one :
    magnitudeUnits (roundRatio n 1) = naturalSignificand n * 2 ^ (Nat.log2 n + 1022) := by
  obtain ⟨hlow, hhigh⟩ := naturalSignificand_bounds hn
  rw [roundRatio_one hn, magnitudeUnits_binade hlow hhigh]

end naturals

/-- A magnitude whose value is not above a natural is not above the one that it is rounded to. -/
theorem le_roundRatio_one {m n : Nat} (h : magnitudeUnits m ≤ n * unitsPerOne) :
    m ≤ roundRatio n 1 := by
  by_cases hn : n = 0
  · rw [hn, Nat.zero_mul, ← magnitudeUnits_zero] at h
    exact Nat.le_trans (magnitudeUnits_strictMono.le_iff_le.mp h) (Nat.zero_le _)
  by_contra hm
  obtain ⟨hlow, hhigh⟩ := naturalSignificand_bounds hn
  have hlt := Nat.lt_of_not_le hm
  rcases Nat.lt_or_eq_of_le hhigh with hinside | hend
  · -- The next significand of the binade is not above the natural either.
    have hnext : magnitudeUnits (roundRatio n 1 + 1)
        = (naturalSignificand n + 1) * 2 ^ (Nat.log2 n + 1022) := by
      rw [roundRatio_one hn, Nat.add_assoc, magnitudeUnits_binade (Nat.le_succ_of_le hlow) hinside]
    have hle := magnitudeUnits_strictMono.monotone (Nat.succ_le_of_lt hlt)
    rw [Nat.succ_eq_add_one, hnext] at hle
    exact Nat.not_succ_le_self _ (le_naturalSignificand (Nat.le_trans hle h))
  · -- The binade ends above the natural.
    have habove := magnitudeUnits_strictMono hlt
    rw [magnitudeUnits_roundRatio_one hn, hend] at habove
    exact Nat.lt_irrefl _ (Nat.lt_trans (Nat.lt_of_lt_of_le habove h) (binade_bounds hn).2)

/-- A magnitude whose value is not below a natural is not below the one that it is rounded to. -/
theorem roundRatio_one_le {m n : Nat} (h : n * unitsPerOne ≤ magnitudeUnits m) :
    roundRatio n 1 ≤ m := by
  by_cases hn : n = 0
  · rw [hn, roundRatio, if_pos rfl]
    exact Nat.zero_le m
  by_contra hm
  obtain ⟨hlow, hhigh⟩ := naturalSignificand_bounds hn
  have hlt := Nat.lt_of_not_le hm
  rcases Nat.lt_or_eq_of_le hlow with hinside | hstart
  · -- The significand before it in the binade is not below the natural either.
    obtain ⟨s, hs⟩ := Nat.exists_eq_succ_of_ne_zero (Nat.ne_of_gt (Nat.zero_lt_of_lt hinside))
    have hm : m ≤ (Nat.log2 n + 1022) * 2 ^ 52 + s := by
      rw [roundRatio_one hn] at hlt
      omega
    have hle := magnitudeUnits_strictMono.monotone hm
    rw [magnitudeUnits_binade (by omega) (by omega)] at hle
    have hsignificand := naturalSignificand_le (Nat.le_trans h hle)
    omega
  · -- The binade starts not above the natural.
    have hbelow := magnitudeUnits_strictMono hlt
    rw [magnitudeUnits_roundRatio_one hn, ← hstart] at hbelow
    exact Nat.lt_irrefl _ (Nat.lt_of_lt_of_le hbelow (Nat.le_trans (binade_bounds hn).1 h))

/-- A natural that the power of its binade divides is a value of the format. -/
theorem magnitudeUnits_roundRatio_one_of_dvd {n : Nat} (h : 2 ^ (Nat.log2 n - 52) ∣ n) :
    magnitudeUnits (roundRatio n 1) = n * unitsPerOne := by
  by_cases hn : n = 0
  · rw [hn, roundRatio, if_pos rfl, magnitudeUnits_zero, Nat.zero_mul]
  obtain ⟨c, -, hnatural, hrounded⟩ := exists_scale n
  have hexact : naturalSignificand n * 2 ^ (Nat.log2 n - 52) = n * 2 ^ (52 - Nat.log2 n) :=
    divideHalfEven_of_dvd (Nat.two_pow_pos _) (Nat.dvd_mul_right_of_dvd h _)
  rw [magnitudeUnits_roundRatio_one hn, hrounded, hexact, hnatural]

/-- A natural of 53 bits is a value of the format, and so is the next one. -/
theorem magnitudeUnits_roundRatio_one_of_le {n : Nat} (h : n ≤ 2 ^ 53) :
    magnitudeUnits (roundRatio n 1) = n * unitsPerOne := by
  refine magnitudeUnits_roundRatio_one_of_dvd ?_
  rcases Nat.lt_or_eq_of_le h with hlt | rfl
  · by_cases hn : n = 0
    · rw [hn]
      exact Nat.dvd_zero _
    · rw [Nat.sub_eq_zero_of_le (Nat.le_of_lt_succ ((Nat.log2_lt hn).mpr hlt))]
      exact Nat.one_dvd n
  · rw [Nat.log2_two_pow]
    exact Nat.pow_dvd_pow 2 (by decide)

/-! ## Signed values -/

/-- A count of units with a sign. -/
def signed (negative : Bool) (count : Nat) : Int := if negative then -(count : Int) else count

theorem units_eq (x : Binary64) : x.units = signed x.negative (magnitudeUnits x.magnitude) := rfl

theorem mul_unitsPerOne_eq (n : Int) :
    n * unitsPerOne = signed (decide (n < 0)) (n.natAbs * unitsPerOne) := by
  cases n with
  | ofNat n =>
    rw [signed, if_neg (by simp)]
    rfl
  | negSucc n =>
    rw [signed, if_pos (by simp [Int.negSucc_lt_zero]), Int.negSucc_eq, Int.neg_mul,
      Int.natCast_mul]
    rfl

/-- Floats stand on the line in the order of their values, the zeros apart. -/
theorem key_lt_of_units_lt {x y : Binary64} (h : x.units < y.units) : x.key < y.key := by
  rw [units_eq, units_eq] at h
  rw [key, key]
  cases hx : x.negative <;> cases hy : y.negative <;>
    simp only [signed, hx, hy, if_true, if_false, Bool.false_eq_true] at h ⊢
  · have := magnitudeUnits_strictMono.lt_iff_lt.mp (Int.ofNat_lt.mp h)
    omega
  · omega
  · omega
  · have := magnitudeUnits_strictMono.lt_iff_lt.mp (Int.ofNat_lt.mp (Int.neg_lt_neg_iff.mp h))
    omega

/-- A float below an integer is not above the place where it is rounded to. -/
theorem key_le_keyOfInt {x : Binary64} {n : Int} (h : x.units < n * unitsPerOne) :
    x.key ≤ keyOfInt n := by
  rw [units_eq, mul_unitsPerOne_eq] at h
  rw [key, keyOfInt]
  by_cases hn : n < 0 <;> cases hx : x.negative <;>
    simp only [signed, hn, hx, decide_true, decide_false, if_true, if_false,
      Bool.false_eq_true] at h ⊢
  · omega
  · have := roundRatio_one_le (Int.ofNat_le.mp (Int.le_of_lt (Int.neg_lt_neg_iff.mp h)))
    omega
  · have := le_roundRatio_one (Int.ofNat_le.mp (Int.le_of_lt h))
    omega
  · omega

/-- A float above an integer is not below the place where it is rounded to. -/
theorem keyOfInt_le_key {x : Binary64} {n : Int} (h : n * unitsPerOne < x.units) :
    keyOfInt n ≤ x.key := by
  rw [units_eq, mul_unitsPerOne_eq] at h
  rw [key, keyOfInt]
  by_cases hn : n < 0 <;> cases hx : x.negative <;>
    simp only [signed, hn, hx, decide_true, decide_false, if_true, if_false,
      Bool.false_eq_true] at h ⊢
  · omega
  · have := le_roundRatio_one (Int.ofNat_le.mp (Int.le_of_lt (Int.neg_lt_neg_iff.mp h)))
    omega
  · have := roundRatio_one_le (Int.ofNat_le.mp (Int.le_of_lt h))
    omega
  · omega

/-- Up to 53 bits an integer is rounded to nothing but its own value. -/
theorem units_of_key_eq {x : Binary64} {n : Int} (hn : n.natAbs ≤ 2 ^ 53)
    (h : x.key = keyOfInt n) : x.units = n * unitsPerOne := by
  have hexact := magnitudeUnits_roundRatio_one_of_le hn
  rw [key, keyOfInt] at h
  rw [units_eq, mul_unitsPerOne_eq]
  by_cases hneg : n < 0 <;> cases hx : x.negative <;>
    simp only [signed, hneg, hx, decide_true, decide_false, if_true, if_false,
      Bool.false_eq_true] at h ⊢
  · omega
  · have hmagnitude : x.magnitude = roundRatio n.natAbs 1 := by omega
    rw [hmagnitude, hexact]
  · rw [Int.ofNat.inj h, hexact]
  · omega

end NestedRead.Binary64
