import TerrainPatches.Proofs.Single.Whole

/-!
# The binary logarithm

All that is used of a logarithm is that it is off by less than one for positive numbers, and that it
is not positive for others (`IsLogarithm`).  Rounded up, it is a small number then, and at least `j`
for a number that is at least `2 ^ j` (`ceilNat_log2`).  The logarithm that is already rounded up to
a whole number is off by less than one (`isLogarithm_log2Up`).
-/

namespace TerrainPatches

open Float.Model Float.Model.UnpackedFloat

/-- off by less than one; for what is not positive it is negative infinity or undefined -/
structure IsLogarithm (log2 : Float32 → Float32) : Prop where
  near {a : Float32} {q : ℚ} : Holds a q → 0 < q →
    (log2 a).isFinite = true ∧ |(value (log2 a) : ℝ) - Real.logb 2 q| < 1
  not_pos {a : Float32} : ¬ Scalar.zero < a → ¬ Scalar.zero < log2 a

section
variable {log2 : Float32 → Float32} {a : Float32} {q : ℚ}

theorem ceilNat_of_not_pos (h : ¬ Scalar.zero < a) : Scalar.ceilNat a = 0 := by
  rw [Scalar.ceilNat, toNat_of_not_pos h]
  exact if_neg h

theorem logb_lt_of_lt_ceiling (hpos : 0 < q) (h : q < ceiling) : Real.logb 2 q < 128 := by
  have hlt : ((q : ℚ) : ℝ) < 2 ^ (128 : ℝ) := by
    rw [show (128 : ℝ) = ((128 : ℕ) : ℝ) by norm_num, Real.rpow_natCast]
    unfold ceiling at h
    exact_mod_cast h
  exact (Real.logb_lt_iff_lt_rpow one_lt_two (by exact_mod_cast hpos)).mpr hlt

theorem le_logb_of_two_pow_le {j : Nat} (h : 2 ^ j ≤ q) : (j : ℝ) ≤ Real.logb 2 q := by
  have hpos : 0 < q := lt_of_lt_of_le (by positivity) h
  rw [Real.le_logb_iff_rpow_le one_lt_two (by exact_mod_cast hpos), Real.rpow_natCast]
  exact_mod_cast h

/-- **A logarithm that is off by less than one, rounded up.** -/
theorem ceilNat_log2 (hlog : IsLogarithm log2) (ha : Holds a q) :
    Scalar.ceilNat (log2 a) ≤ 129 ∧ ∀ j : Nat, 2 ^ j ≤ q → j ≤ Scalar.ceilNat (log2 a) := by
  rcases ha.nonneg.eq_or_lt with rfl | hpos
  · have hzero : ¬ Scalar.zero < a := by
      rw [lt_iff holds_zero.finite ha.finite, holds_zero.value, ha.value]
      exact lt_irrefl 0
    rw [ceilNat_of_not_pos (hlog.not_pos hzero)]
    refine ⟨Nat.zero_le _, fun j hj => ?_⟩
    exact absurd hj (not_le.mpr (by positivity))
  · obtain ⟨hfinite, hnear⟩ := hlog.near ha hpos
    obtain ⟨hlower, hupper⟩ := abs_lt.mp hnear
    by_cases hlogpos : Scalar.zero < log2 a
    · obtain ⟨hv, -⟩ := holds_of_pos hfinite hlogpos
      have small : value (log2 a) < 129 := by
        have := logb_lt_of_lt_ceiling hpos ha.lt_ceiling
        have hlt : (value (log2 a) : ℝ) < 129 := by linarith
        exact_mod_cast hlt
      rw [ceilNat_of_holds hv (small.le.trans (by norm_num))]
      refine ⟨Nat.ceil_le.mpr (by exact_mod_cast small.le), ?_⟩
      intro j hj
      -- the logarithm is at least `j`, so what it is off by leaves more than `j - 1`
      have hlt : (j : ℝ) < value (log2 a) + 1 := by
        have := le_logb_of_two_pow_le hj
        linarith
      have hceil : j < ⌈value (log2 a)⌉₊ + 1 := by
        have : (j : ℚ) < value (log2 a) + 1 := by exact_mod_cast hlt
        exact_mod_cast this.trans_le (add_le_add_left (Nat.le_ceil _) 1)
      omega
    · rw [ceilNat_of_not_pos hlogpos]
      refine ⟨Nat.zero_le _, ?_⟩
      intro j hj
      have hvalue : value (log2 a) ≤ 0 := by
        rw [lt_iff holds_zero.finite hfinite, holds_zero.value] at hlogpos
        exact not_lt.mp hlogpos
      have hlt : (j : ℝ) < 1 := by
        have : (value (log2 a) : ℝ) ≤ 0 := by exact_mod_cast hvalue
        have := le_logb_of_two_pow_le hj
        linarith
      exact Nat.le_of_lt_succ (by exact_mod_cast hlt)

end

/-! ## the logarithm that is rounded up -/

/-- the ceiling is the exponent of the least power of two that is not below the number -/
theorem binaryCeiling_spec {f : FloatParts} (hm : 0 < f.mantissa) :
    f.mantissa * 2 ^ f.shift ≤ 2 ^ f.binaryCeiling ∧
      2 ^ f.binaryCeiling < 2 * (f.mantissa * 2 ^ f.shift) := by
  have lower : 2 ^ (2 * f.mantissa - 1).log2 ≤ 2 * f.mantissa - 1 := Nat.log2_self_le (by omega)
  have upper := Nat.lt_log2_self (n := 2 * f.mantissa - 1)
  rw [Nat.pow_succ] at upper
  have power : 2 ^ f.binaryCeiling = 2 ^ (2 * f.mantissa - 1).log2 * 2 ^ f.shift := pow_add _ _ _
  rw [power, ← mul_assoc]
  constructor
  · exact Nat.mul_le_mul_right _ (by omega)
  · exact Nat.mul_lt_mul_of_pos_right (by omega) (by positivity)

/-- the ceiling of a number that can be written -/
theorem binaryCeiling_le {f : FloatParts} (hw : Written f.mantissa ((f.shift : ℤ) - 149))
    (he : (f.shift : ℤ) - 149 ≤ 104) : f.binaryCeiling ≤ 277 := by
  have hpos := hw.pos
  have hlt := hw.lt
  have hlog : (2 * f.mantissa - 1).log2 < 25 := (Nat.log2_lt (by omega)).mpr (by omega)
  unfold FloatParts.binaryCeiling
  omega

section
variable {a : Float32} {q : ℚ}

/-- the rounded logarithm of a positive number is the exponent of the least power of two that is not
below it -/
theorem value_log2Up (ha : Holds a q) (hq : 0 < q) : ∃ c : ℤ, (log2Up a).isFinite = true ∧
    value (log2Up a) = c ∧ q ≤ 2 ^ c ∧ 2 ^ c < 2 * q := by
  rcases ha.unpack with ⟨rfl, -⟩ | ⟨m, e, hm, hw, he, rfl, hu⟩
  · exact absurd hq (lt_irrefl 0)
  · rw [unpack_toModel] at hu
    obtain ⟨hfinite, hsign, rfl, rfl⟩ := FloatParts.parts_of_unpacked hu
    have ceiling := binaryCeiling_le hw he
    obtain ⟨upper, lower⟩ := binaryCeiling_spec hm
    refine ⟨(FloatParts.ofFloat a).binaryCeiling - 149, ?_⟩
    have notInfinite : (!(FloatParts.ofFloat a).isFinite) = false := by
      simpa [FloatParts.isFinite] using hfinite
    have notNegative : (FloatParts.ofFloat a).negative = false := by
      cases hn : (FloatParts.ofFloat a).negative with
      | false => rfl
      | true =>
        rw [FloatParts.sign, hn] at hsign
        cases hsign
    have result : Denotes (log2Up a) (((FloatParts.ofFloat a).binaryCeiling : ℤ) - 149 : ℤ) := by
      unfold log2Up
      simp only [notInfinite, notNegative, hm.ne', Bool.false_eq_true, if_false]
      split
      · next h =>
        have holds := holds_natCast (n := (FloatParts.ofFloat a).binaryCeiling - 149) (by omega)
        refine ⟨holds.finite, ?_⟩
        rw [holds.value]
        push_cast [h]
        rfl
      · next h =>
        have holds := holds_natCast (n := 149 - (FloatParts.ofFloat a).binaryCeiling) (by omega)
        refine ⟨holds.denotes.neg.finite, ?_⟩
        rw [holds.denotes.neg.value]
        push_cast [(not_le.mp h).le]
        ring
    refine ⟨result.finite, result.value, ?_, ?_⟩
    · rw [amount, zpow_sub₀ (by norm_num), zpow_sub₀ (by norm_num), ← mul_div_assoc]
      refine div_le_div_of_nonneg_right ?_ (by positivity)
      exact_mod_cast upper
    · rw [amount, zpow_sub₀ (by norm_num), zpow_sub₀ (by norm_num), ← mul_div_assoc,
        ← mul_div_assoc]
      refine div_lt_div_of_pos_right ?_ (by positivity)
      exact_mod_cast lower

theorem log2Up_of_not_pos (h : ¬ Scalar.zero < a) : ¬ Scalar.zero < log2Up a := by
  unfold log2Up
  dsimp only
  split
  · exact h
  · next hfinite =>
    split
    · decide +kernel
    · next hm =>
      split
      · decide +kernel
      · next hsign =>
        refine absurd ((zero_lt_iff a).mpr ?_) h
        have hexponent : (FloatParts.ofFloat a).exponent ≠ 255 := by
          simpa [FloatParts.isFinite] using hfinite
        have sign : (FloatParts.ofFloat a).sign = .positive := if_neg hsign
        rw [unpack_toModel, FloatParts.unpacked, if_neg hexponent, dif_neg hm, sign]
        rfl

/-- **The logarithm that is rounded up is off by less than one.** -/
theorem isLogarithm_log2Up : IsLogarithm log2Up := by
  refine ⟨?_, log2Up_of_not_pos⟩
  intro a q ha hq
  obtain ⟨c, finite, hvalue, upper, lower⟩ := value_log2Up ha hq
  have hpos : (0 : ℝ) < q := by exact_mod_cast hq
  have power : ((2 ^ c : ℚ) : ℝ) = 2 ^ c := by push_cast; rfl
  have le : Real.logb 2 q ≤ c := by
    rw [Real.logb_le_iff_le_rpow one_lt_two hpos, Real.rpow_intCast, ← power]
    exact Rat.cast_le.mpr upper
  have lt : (c : ℝ) - 1 < Real.logb 2 q := by
    rw [Real.lt_logb_iff_rpow_lt one_lt_two hpos, Real.rpow_sub_one two_ne_zero,
      Real.rpow_intCast, div_lt_iff₀ two_pos, mul_comm, ← power]
    exact_mod_cast Rat.cast_lt.mpr lower
  refine ⟨finite, ?_⟩
  rw [hvalue, Rat.cast_intCast, abs_lt]
  constructor <;> linarith

end

end TerrainPatches
