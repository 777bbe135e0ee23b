import TerrainPatches.Proofs.Single.Positive
import TerrainPatches.Resolution

/-!
# Whole numbers

A whole number is not negative, whatever it is rounded to (`holds_ofNat`), and a small one is not
rounded at all (`holds_natCast`).  A number that is not negative has the whole part of what it
stands for, as far as counts reach, and what is infinite has the greatest count (`toNat_of_holds`,
`toNat_of_infinity`).  So a small number is rounded up like what it stands for (`ceilNat_of_holds`).
-/

namespace TerrainPatches

open Float.Model Float.Model.UnpackedFloat

theorem ofNat_eq (n : Nat) : (Scalar.ofNat n : Float32)
    = ⟨Float32.Model.pack (UnpackedFloat.normalize .binary32 (n % 2 ^ 64 : Nat) 0 .positive)⟩ := by
  have wrapped : n.toUInt64.toNat = n % 2 ^ 64 := UInt64.toNat_ofNat'
  rw [← wrapped]
  rfl

theorem holds_ofNat (n : Nat) : ∃ x ≤ 2 ^ 64, Holds (Scalar.ofNat n) x := by
  rw [ofNat_eq]
  have hlt : n % 2 ^ 64 < 2 ^ 64 := Nat.mod_lt _ (by norm_num)
  generalize n % 2 ^ 64 = n at hlt ⊢
  by_cases h0 : n = 0
  · rw [h0]
    exact ⟨0, by norm_num, holds_of_zero (unpack_pack_zero .positive)⟩
  · obtain ⟨v, hv, hstands⟩ := round_spec (s := .positive) h0 0
    have upper : v ≤ 2 ^ 64 := by
      refine (hv _ (writable_two_pow 64)).2 ?_
      rw [amount, zpow_zero, mul_one]
      exact_mod_cast hlt.le
    rw [normalize_natCast h0]
    exact ⟨v, upper, holds_pack hstands (upper.trans_lt (by unfold ceiling; norm_num))⟩

/-- a whole number that can be written is exact -/
theorem holds_of_writable {n : Nat} (hw : Writable n) (hn : n < 2 ^ 64) :
    Holds (Scalar.ofNat n) n := by
  rw [ofNat_eq, Nat.mod_eq_of_lt hn]
  by_cases h0 : n = 0
  · rw [h0, Nat.cast_zero]
    exact holds_of_zero (unpack_pack_zero .positive)
  · obtain ⟨v, hv, hstands⟩ := round_spec (s := .positive) h0 0
    have whole : amount n 0 = n := by rw [amount, zpow_zero, mul_one]
    rw [whole] at hv
    have upper : (n : ℚ) < ceiling := by
      have : (n : ℚ) < 2 ^ 64 := by exact_mod_cast hn
      unfold ceiling
      exact this.trans (by norm_num)
    rw [hv.eq hw] at hstands
    rw [normalize_natCast h0]
    exact holds_pack hstands upper

theorem holds_natCast {n : Nat} (hn : n ≤ 2 ^ 24) : Holds (Scalar.ofNat n) n := by
  refine holds_of_writable ?_ (hn.trans_lt (by norm_num))
  have hw := writable_of_le hn (show -149 ≤ (0 : ℤ) by norm_num)
  rwa [amount, zpow_zero, mul_one] at hw

/-! ## whole parts -/

/-- the greatest count is what is infinite -/
theorem toNat_ofNatClamp (n : Nat) : (UInt32.ofNatClamp n).toNat = min n (countLimit - 1) := by
  unfold UInt32.ofNatClamp
  split
  · next h => exact (Nat.min_eq_left (Nat.le_sub_one_of_lt h)).symm
  · next h => exact (Nat.min_eq_right ((Nat.sub_le _ 1).trans (not_lt.mp h))).symm

theorem toNat_eq (a : Float32) : Scalar.toNat a
    = min (a.toModel.unpack.toInt 0 (UInt32.size - 1)).toNat (countLimit - 1) :=
  toNat_ofNatClamp _

theorem roundToInt_eq (m : Nat) (e : ℤ) : roundToInt .positive m e = (⌊amount m e⌋₊ : ℤ) := by
  obtain ⟨k, hk⟩ : ∃ k : Nat, (k : ℤ) = max (e - 0) 0 := ⟨(e - 0).toNat, by omega⟩
  obtain ⟨j, hj⟩ : ∃ j : Nat, (j : ℤ) = k - e := ⟨(k - e).toNat, by omega⟩
  have shift : (0 - (e - k)).toNat = j := by omega
  have quotient : amount m e = ((m * 2 ^ k : Nat) : ℚ) / (2 ^ j : Nat) := by
    rw [show e = k - j by omega, amount, zpow_sub₀ (by norm_num), zpow_natCast, zpow_natCast,
      ← mul_div_assoc]
    push_cast
    rfl
  rw [quotient, Nat.floor_div_eq_div]
  show (((shiftToExponent (decreaseExponent m e 0).1 (decreaseExponent m e 0).2
    .exact 0).1.mantissa : Nat) : ℤ) = _
  rw [decreaseExponent_eq hk]
  show (((ExtendedMantissa.ofMantissaAndAccuracy (m * 2 ^ k) .exact
    >>> (0 - (e - k)).toNat).mantissa : Nat) : ℤ) = _
  rw [mantissa_shiftRight, shift]
  rfl

section
variable {a : Float32} {v : ℚ}

theorem toNat_of_infinity (h : a.toModel.unpack = .infinity .positive) :
    Scalar.toNat a = countLimit - 1 := by
  rw [toNat_eq, h]
  rfl

/-- **The whole part of a number is that of what it stands for.** -/
theorem toNat_of_holds (ha : Holds a v) : Scalar.toNat a = min ⌊v⌋₊ (countLimit - 1) := by
  rw [toNat_eq]
  rcases ha.unpack with ⟨rfl, s, hu⟩ | ⟨m, e, hm, -, -, rfl, hu⟩
  · rw [hu, Nat.floor_zero]
    rfl
  · rw [hu]
    show min (roundToInt .positive m e).toNat _ = _
    rw [roundToInt_eq, Int.toNat_natCast]

theorem toNat_of_not_pos (h : ¬ Scalar.zero < a) : Scalar.toNat a = 0 := by
  have whole : a.toModel.unpack.toInt 0 (UInt32.size - 1) ≤ 0 := by
    rw [zero_lt_iff] at h
    cases hu : a.toModel.unpack with
    | infinity s =>
      cases s with
      | negative => exact le_rfl
      | positive => rw [hu] at h; exact absurd rfl h
    | notANumber => exact le_rfl
    | zero s => exact le_rfl
    | finite s m e hm =>
      cases s with
      | negative => exact Int.neg_nonpos_of_nonneg (Int.natCast_nonneg _)
      | positive => rw [hu] at h; exact absurd rfl h
  rw [toNat_eq, Int.toNat_of_nonpos whole]
  rfl

/-- a divisor of one changes no whole part -/
theorem toNat_div_one (a : Float32) : Scalar.toNat (a / Scalar.one) = Scalar.toNat a := by
  by_cases hpos : Scalar.zero < a
  · rcases unpack_of_pos hpos with hu | hfinite
    · rw [toNat_of_infinity hu, toNat_of_infinity]
      rw [div_eq, hu]
      rfl
    · obtain ⟨ha, -⟩ := holds_of_pos hfinite hpos
      have hdiv := ha.div_exact holds_one one_pos (by rw [div_one]; exact ha.writable)
        (by rw [div_one]; exact ha.lt_ceiling)
      rw [div_one] at hdiv
      rw [toNat_of_holds ha, toNat_of_holds hdiv]
  · have hone : Scalar.zero < (Scalar.one : Float32) := by decide +kernel
    have hdiv : ¬ Scalar.zero < a / Scalar.one := by
      by_cases hfinite : a.isFinite = true
      · exact not_pos_div hfinite hpos hone
      · rw [isFinite_eq] at hfinite
        rw [zero_lt_iff] at hpos ⊢
        rw [div_eq]
        cases hu : a.toModel.unpack with
        | infinity s =>
          cases s with
          | negative => exact Bool.false_ne_true
          | positive => rw [hu] at hpos; exact absurd rfl hpos
        | notANumber => exact Bool.false_ne_true
        | zero s => rw [hu] at hfinite; exact absurd rfl hfinite
        | finite s m e hm => rw [hu] at hfinite; exact absurd rfl hfinite
    rw [toNat_of_not_pos hpos, toNat_of_not_pos hdiv]

/-! ## counts -/

theorem pos_of_one_le (h : Scalar.one ≤ a) : Scalar.zero < a := by
  have hm : 0 < 2 ^ 23 := by norm_num
  have hone : (Scalar.one : Float32).toModel.unpack = .finite .positive (2 ^ 23) (-23) hm := rfl
  rw [le_eq, hone] at h
  rw [zero_lt_iff]
  cases hu : a.toModel.unpack with
  | infinity s => cases s <;> rw [hu] at h <;> first | rfl | cases h
  | notANumber => rw [hu] at h; cases h
  | zero s => rw [hu] at h; cases h
  | finite s m e hm => cases s <;> rw [hu] at h <;> first | rfl | cases h

/-- a whole part is at least one for what is at least one -/
theorem one_le_toNat_iff (a : Float32) : 1 ≤ Scalar.toNat a ↔ Scalar.one ≤ a := by
  by_cases hpos : Scalar.zero < a
  · rcases unpack_of_pos hpos with hu | hfinite
    · refine iff_of_true ?_ ?_
      · rw [toNat_of_infinity hu]
        decide
      · rw [le_eq, (compare_infinity holds_one.finite hu).1]
        rfl
    · obtain ⟨ha, -⟩ := holds_of_pos hfinite hpos
      rw [toNat_of_holds ha, Nat.le_min, Nat.one_le_floor_iff, le_iff holds_one.finite hfinite,
        holds_one.value]
      exact and_iff_left (by decide)
  · refine iff_of_false ?_ (mt pos_of_one_le hpos)
    rw [toNat_of_not_pos hpos]
    exact Nat.not_succ_le_zero 0

/-- no number that can be written lies just below the limit of counts -/
theorem Writable.le_of_lt_countLimit {c : ℚ} (h : Writable c) (hc : c < countLimit) :
    c ≤ countLimit - 256 := by
  have limit : (countLimit : ℚ) = amount (2 ^ 24) 8 := by
    unfold countLimit amount
    norm_num
  have below : (countLimit : ℚ) - 256 = amount (2 ^ 24 - 1) 8 := by
    unfold countLimit amount
    norm_num
  rw [below]
  rcases h with rfl | ⟨m, e, hw, rfl⟩
  · exact amount_nonneg _ _
  · by_cases he : e < 8
    · exact amount_le_of_lt hw.lt.le (by norm_num) he
    · obtain ⟨n, hn⟩ := amount_of_le (not_lt.mp he) m
      rw [limit, hn, amount_lt_iff] at hc
      rw [hn, amount_le_iff]
      omega

theorem holds_countLimit : Holds (Scalar.ofNat countLimit) countLimit := by
  refine holds_of_writable ?_ (by decide)
  have hw := writable_two_pow 32
  rwa [show (2 : ℚ) ^ 32 = countLimit by unfold countLimit; norm_num] at hw

/-- **What has a successor among the counts.** -/
theorem toNat_succ_lt_iff (h : Scalar.one ≤ a) :
    Scalar.toNat a + 1 < countLimit ↔ a < Scalar.ofNat countLimit := by
  have hpos := pos_of_one_le h
  rcases unpack_of_pos hpos with hu | hfinite
  · refine iff_of_false ?_ ?_
    · rw [toNat_of_infinity hu]
      decide
    · rw [lt_eq, (compare_infinity holds_countLimit.finite hu).2]
      exact Bool.false_ne_true
  · obtain ⟨ha, -⟩ := holds_of_pos hfinite hpos
    rw [toNat_of_holds ha, lt_iff hfinite holds_countLimit.finite, holds_countLimit.value]
    constructor
    · intro hlt
      by_contra hle
      have : countLimit ≤ ⌊value a⌋₊ := Nat.le_floor (not_lt.mp hle)
      unfold countLimit at this hlt
      omega
    · intro hlt
      have hfloor : ⌊value a⌋₊ ≤ countLimit - 256 := by
        refine Nat.floor_le_of_le ((ha.writable.le_of_lt_countLimit hlt).trans_eq ?_)
        unfold countLimit
        norm_num
      unfold countLimit at hfloor ⊢
      omega

/-! ## rounding up -/

theorem ceilNat_of_holds (ha : Holds a v) (hv : v ≤ 2 ^ 24) : Scalar.ceilNat a = ⌈v⌉₊ := by
  have floor_le : ⌊v⌋₊ ≤ 2 ^ 24 := Nat.floor_le_of_le (by exact_mod_cast hv)
  have whole : Scalar.toNat a = ⌊v⌋₊ := by
    rw [toNat_of_holds ha]
    exact Nat.min_eq_left (floor_le.trans (by decide))
  have below : Scalar.ofNat ⌊v⌋₊ < a ↔ (⌊v⌋₊ : ℚ) < v := by
    have hfloor := holds_natCast floor_le
    rw [lt_iff hfloor.finite ha.finite, hfloor.value, ha.value]
  rw [Scalar.ceilNat, whole]
  by_cases h : (⌊v⌋₊ : ℚ) < v
  · rw [if_pos (below.mpr h)]
    refine le_antisymm ?_ (Nat.ceil_le_floor_add_one v)
    exact Nat.lt_ceil.mpr h
  · have exact : v = ⌊v⌋₊ := le_antisymm (not_lt.mp h) (Nat.floor_le ha.nonneg)
    rw [if_neg (mt below.mp h)]
    conv_rhs => rw [exact, Nat.ceil_natCast]

end

end TerrainPatches
