import Mathlib.Data.Nat.Dist
import NestedRead.Json.Basic
import NestedRead.Proofs.Number.ExactValue

/-!
# Integers are rounded to the nearest float

What is compared with a float in the place of an integer is the float nearest to it, and of two that
are as near the even one (`Nearest`). In the binade of a natural the floats are the multiples of a
power of two, and there this is a law of the rounded quotient. A float outside the binade is farther
away than an end of the binade, which is a multiple too.

Floats themselves are compared by value, the negative zero before the other one (`compare_key`).
-/

set_option autoImplicit false

namespace NestedRead.Binary64

/-! ## Quotients -/

/-- No multiple of the divisor is nearer to the dividend than that by the rounded quotient. -/
theorem dist_divideHalfEven_le {num den : Nat} (hden : 0 < den) (k : Nat) :
    Nat.dist (divideHalfEven num den * den) num ≤ Nat.dist (k * den) num := by
  have hnum := Nat.div_add_mod' num den
  have hmod := Nat.mod_lt num hden
  have hsucc : (num / den + 1) * den = num / den * den + den := Nat.succ_mul ..
  have hside : k * den ≤ num / den * den ∨ (num / den + 1) * den ≤ k * den :=
    (Nat.lt_or_ge (num / den) k).symm.imp (Nat.mul_le_mul_right den) (Nat.mul_le_mul_right den)
  unfold divideHalfEven Nat.dist
  dsimp only
  split
  · omega
  split
  · omega
  · rcases Nat.mod_two_eq_zero_or_one (num / den) with heven | hodd
    · rw [heven, Nat.add_zero]
      omega
    · rw [hodd]
      omega

/-- Another multiple is as near only where the rounded quotient is even. -/
theorem divideHalfEven_even_of_tie {num den k : Nat} (hden : 0 < den)
    (hne : k ≠ divideHalfEven num den)
    (htie : Nat.dist (k * den) num = Nat.dist (divideHalfEven num den * den) num) :
    divideHalfEven num den % 2 = 0 := by
  have hnum := Nat.div_add_mod' num den
  have hmod := Nat.mod_lt num hden
  have hsucc : (num / den + 1) * den = num / den * den + den := Nat.succ_mul ..
  have hless : ∀ i j : Nat, i < j → i * den + den ≤ j * den := fun i j hij => by
    rw [← Nat.succ_mul]
    exact Nat.mul_le_mul_right den hij
  unfold divideHalfEven Nat.dist at *
  dsimp only at *
  -- Below or above a half no other multiple is as near.
  by_cases hlow : 2 * (num % den) < den
  · rw [if_pos hlow] at hne htie
    rcases Nat.lt_or_gt_of_ne hne with hlt | hgt
    · have := hless _ _ hlt
      omega
    · have := hless _ _ hgt
      omega
  by_cases hhigh : den < 2 * (num % den)
  · rw [if_neg hlow, if_pos hhigh] at hne htie
    rcases Nat.lt_or_gt_of_ne hne with hlt | hgt
    · have := hless _ _ hlt
      omega
    · have := hless _ _ hgt
      omega
  · rw [if_neg hlow, if_neg hhigh]
    omega

/-! ## Naturals -/

/-- In the binade of a natural the distance from it is that from the dividend, scaled. -/
theorem exists_scale_dist (n : Nat) : ∃ c, 0 < c ∧
    ∀ k, Nat.dist (k * 2 ^ (Nat.log2 n + 1022)) (n * unitsPerOne)
      = Nat.dist (k * 2 ^ (Nat.log2 n - 52)) (n * 2 ^ (52 - Nat.log2 n)) * c := by
  obtain ⟨c, hc, hnatural, hscale⟩ := exists_scale n
  refine ⟨c, hc, fun k => ?_⟩
  rw [hscale, hnatural, Nat.dist_mul_right]

/-- A magnitude is in the binade of a natural, or an end of the binade lies between the two. -/
theorem exists_significand_between {n : Nat} (hn : n ≠ 0) (m : Nat) : ∃ k,
    magnitudeUnits m = k * 2 ^ (Nat.log2 n + 1022) ∨
    (magnitudeUnits m < k * 2 ^ (Nat.log2 n + 1022) ∧
      k * 2 ^ (Nat.log2 n + 1022) ≤ n * unitsPerOne) ∨
    (n * unitsPerOne < k * 2 ^ (Nat.log2 n + 1022) ∧
      k * 2 ^ (Nat.log2 n + 1022) < magnitudeUnits m) := by
  obtain ⟨hlow, hhigh⟩ := binade_bounds hn
  have hstart := magnitudeUnits_binade (e := Nat.log2 n + 1022) (Nat.le_refl (2 ^ 52)) (by decide)
  have hend := magnitudeUnits_binade (e := Nat.log2 n + 1022) (by decide) (Nat.le_refl (2 ^ 53))
  rcases Nat.lt_or_ge m ((Nat.log2 n + 1022) * 2 ^ 52 + 2 ^ 52) with hbelow | hge
  · refine ⟨2 ^ 52, .inr (.inl ⟨?_, hlow⟩)⟩
    rw [← hstart]
    exact magnitudeUnits_strictMono hbelow
  rcases Nat.lt_or_ge ((Nat.log2 n + 1022) * 2 ^ 52 + 2 ^ 53) m with habove | hle
  · refine ⟨2 ^ 53, .inr (.inr ⟨hhigh, ?_⟩)⟩
    rw [← hend]
    exact magnitudeUnits_strictMono habove
  · obtain ⟨k, rfl⟩ := Nat.exists_eq_add_of_le (Nat.le_trans (Nat.le_add_right _ _) hge)
    exact ⟨k, .inl (magnitudeUnits_binade (by omega) (by omega))⟩

/-- No magnitude is nearer to a natural than the one that it is rounded to, and where another one
is as near, that one is even. -/
theorem roundRatio_one_nearest (n m : Nat) :
    Nat.dist (magnitudeUnits (roundRatio n 1)) (n * unitsPerOne)
      ≤ Nat.dist (magnitudeUnits m) (n * unitsPerOne) ∧
    (magnitudeUnits m ≠ magnitudeUnits (roundRatio n 1) →
      Nat.dist (magnitudeUnits m) (n * unitsPerOne)
        = Nat.dist (magnitudeUnits (roundRatio n 1)) (n * unitsPerOne) →
      roundRatio n 1 % 2 = 0) := by
  by_cases hn : n = 0
  · have hround : roundRatio n 1 = 0 := by rw [hn, roundRatio, if_pos rfl]
    rw [hround, hn, magnitudeUnits_zero, Nat.zero_mul, Nat.dist_self]
    exact ⟨Nat.zero_le _, fun _ _ => rfl⟩
  obtain ⟨c, hc, hscale⟩ := exists_scale_dist n
  obtain ⟨k, hk⟩ := exists_significand_between hn m
  have hnearest : Nat.dist (magnitudeUnits (roundRatio n 1)) (n * unitsPerOne)
      ≤ Nat.dist (k * 2 ^ (Nat.log2 n + 1022)) (n * unitsPerOne) := by
    rw [magnitudeUnits_roundRatio_one hn, hscale, hscale]
    exact Nat.mul_le_mul_right c (dist_divideHalfEven_le (Nat.two_pow_pos _) k)
  refine ⟨?_, fun hne htie => ?_⟩
  · refine Nat.le_trans hnearest ?_
    unfold Nat.dist
    omega
  · have hm : magnitudeUnits m = k * 2 ^ (Nat.log2 n + 1022) := by
      rcases hk with hk | hk
      · exact hk
      · -- The end of the binade would be nearer.
        unfold Nat.dist at hnearest htie
        omega
    rw [hm, magnitudeUnits_roundRatio_one hn] at hne
    rw [hm, magnitudeUnits_roundRatio_one hn, hscale, hscale] at htie
    have heven : naturalSignificand n % 2 = 0 :=
      divideHalfEven_even_of_tie (Nat.two_pow_pos _) (fun hk => hne (congrArg (· * _) hk))
        (Nat.eq_of_mul_eq_mul_right hc htie)
    rw [roundRatio_one hn]
    omega

/-! ## Integers -/

/-- The float that an integer is converted to: none is nearer, where another one is as near it is
even, and it has the sign of the integer. -/
structure Nearest (x : Binary64) (n : Int) : Prop where
  closest : ∀ y : Binary64,
    (x.units - n * unitsPerOne).natAbs ≤ (y.units - n * unitsPerOne).natAbs
  even : ∀ y : Binary64, y.units ≠ x.units →
    (y.units - n * unitsPerOne).natAbs = (x.units - n * unitsPerOne).natAbs → x.magnitude % 2 = 0
  sign : x.negative = decide (n < 0)

theorem natAbs_signed_sub (s t : Bool) (a b : Nat) :
    (signed s a - signed t b).natAbs = if s = t then Nat.dist a b else a + b := by
  unfold signed Nat.dist
  cases s <;> cases t <;> simp <;> omega

theorem nearest_of_magnitude {x : Binary64} {n : Int} (hsign : x.negative = decide (n < 0))
    (hmagnitude : x.magnitude = roundRatio n.natAbs 1) : x.Nearest n := by
  have hdist : ∀ y : Binary64, (y.units - n * unitsPerOne).natAbs =
      if y.negative = x.negative then
        Nat.dist (magnitudeUnits y.magnitude) (n.natAbs * unitsPerOne)
      else magnitudeUnits y.magnitude + n.natAbs * unitsPerOne := fun y => by
    rw [units_eq, mul_unitsPerOne_eq, natAbs_signed_sub, hsign]
  have hself := hdist x
  rw [if_pos rfl, hmagnitude] at hself
  -- On the other side of zero nothing is nearer than zero is.
  have hzero := roundRatio_one_nearest n.natAbs 0
  rw [magnitudeUnits_zero, Nat.dist_zero_left] at hzero
  refine ⟨fun y => ?_, fun y hne htie => ?_, hsign⟩
  · rw [hself, hdist y]
    split
    · exact (roundRatio_one_nearest _ _).1
    · exact Nat.le_trans hzero.1 (Nat.le_add_left _ _)
  · rw [hself, hdist y] at htie
    rw [hmagnitude]
    split at htie
    · rename_i hsame
      refine (roundRatio_one_nearest _ _).2 (fun hvalue => hne ?_) htie
      rw [units_eq, units_eq, hsame, hmagnitude, hvalue]
    · have hy : magnitudeUnits y.magnitude = 0 := by omega
      refine hzero.2 (fun hvalue => hne ?_) (by omega)
      rw [units_eq, units_eq, hmagnitude, ← hvalue, hy]
      cases y.negative <;> cases x.negative <;> rfl

/-- An integer of 64 bits is compared in the place of the float nearest to it. -/
theorem exists_nearest {n : Int} (hn : Number.InRange n) :
    ∃ x : Binary64, x.Nearest n ∧ keyOfInt n = x.key := by
  have hfinite : roundRatio n.natAbs 1 < overflow := by
    have hle : n.natAbs ≤ 18446744073709551616 := by
      obtain ⟨hlow, hhigh⟩ := hn
      omega
    exact Nat.lt_of_le_of_lt (roundRatio_one_mono hle) (by decide +kernel)
  refine ⟨⟨decide (n < 0), _, hfinite⟩, nearest_of_magnitude rfl rfl, ?_⟩
  rw [keyOfInt, key]
  simp only [decide_eq_true_eq]

/-! ## Floats -/

theorem magnitudeUnits_eq_zero {m : Nat} (h : magnitudeUnits m = 0) : m = 0 :=
  magnitudeUnits_strictMono.injective (h.trans magnitudeUnits_zero.symm)

/-- Floats of one value are the same, or they are zeros. -/
theorem eq_of_units_eq {x y : Binary64} (h : x.units = y.units) :
    x.magnitude = y.magnitude ∧ (x.negative = y.negative ∨ x.magnitude = 0) := by
  rw [units_eq, units_eq] at h
  cases hx : x.negative <;> cases hy : y.negative <;>
    simp only [signed, hx, hy, if_true, if_false, Bool.false_eq_true] at h
  · exact ⟨magnitudeUnits_strictMono.injective (Int.ofNat.inj h), .inl rfl⟩
  · have hxzero := magnitudeUnits_eq_zero (m := x.magnitude) (by omega)
    have hyzero := magnitudeUnits_eq_zero (m := y.magnitude) (by omega)
    exact ⟨hxzero.trans hyzero.symm, .inr hxzero⟩
  · have hxzero := magnitudeUnits_eq_zero (m := x.magnitude) (by omega)
    have hyzero := magnitudeUnits_eq_zero (m := y.magnitude) (by omega)
    exact ⟨hxzero.trans hyzero.symm, .inr hxzero⟩
  · exact ⟨magnitudeUnits_strictMono.injective (Int.ofNat.inj (Int.neg_inj.mp h)), .inl rfl⟩

/-- The total order of floats: by value, and the negative zero before the other one. -/
theorem compare_key (x y : Binary64) :
    compare x.key y.key = (compare x.units y.units).then (compare y.negative x.negative) := by
  rcases Int.lt_trichotomy x.units y.units with hlt | heq | hgt
  · rw [Int.compare_eq_lt.mpr hlt, Int.compare_eq_lt.mpr (key_lt_of_units_lt hlt)]
    rfl
  · rw [Int.compare_eq_eq.mpr heq]
    obtain ⟨hmagnitude, hsign | hzero⟩ := eq_of_units_eq heq
    · rw [key, key, hmagnitude, hsign, Int.compare_eq_eq.mpr rfl]
      cases y.negative <;> rfl
    · rw [key, key, ← hmagnitude, hzero]
      cases x.negative <;> cases y.negative <;> rfl
  · rw [Int.compare_eq_gt.mpr hgt, Int.compare_eq_gt.mpr (key_lt_of_units_lt hgt)]
    rfl

end NestedRead.Binary64
