import TerrainPatches.Proofs.Single.Arithmetic

/-!
# Positive numbers

A positive number is infinite, or it is finite and stands for a positive one (`unpack_of_pos`,
`holds_of_pos`).  A finite number is at most a positive one if it is not greater
(`le_iff_not_lt`), which is not so for what is undefined.  What is not positive is not made so by
a positive divisor (`not_pos_div`).
-/

namespace TerrainPatches

open Float.Model Float.Model.UnpackedFloat

/-- greater than zero -/
def isPositive : UnpackedFloat → Bool
  | .infinity .positive => true
  | .finite .positive _ _ _ => true
  | _ => false

theorem zero_lt_iff (a : Float32) :
    Scalar.zero < a ↔ isPositive a.toModel.unpack = true := by
  have zero : (Scalar.zero : Float32).toModel.unpack = .zero .positive := rfl
  rw [lt_eq, zero]
  cases a.toModel.unpack with
  | infinity s => cases s <;> rfl
  | notANumber => rfl
  | zero s => rfl
  | finite s m e h => cases s <;> rfl

theorem holds_zero : Holds Scalar.zero 0 := holds_of_zero (s := .positive) rfl

theorem holds_one : Holds Scalar.one 1 := by
  have hm : 0 < 2 ^ 23 := by norm_num
  have hone : (Scalar.one : Float32).toModel.unpack = .finite .positive (2 ^ 23) (-23) hm := rfl
  have h := holds_of_finite hone
  rwa [show amount (2 ^ 23) (-23) = 1 by unfold amount; norm_num] at h

theorem holds_two : Holds Scalar.two 2 := by
  have hm : 0 < 2 ^ 23 := by norm_num
  have htwo : (Scalar.two : Float32).toModel.unpack = .finite .positive (2 ^ 23) (-22) hm := rfl
  have h := holds_of_finite htwo
  rwa [show amount (2 ^ 23) (-22) = 2 by unfold amount; norm_num] at h

section
variable {a b : Float32}

theorem unpack_of_pos (h : Scalar.zero < a) :
    a.toModel.unpack = .infinity .positive ∨ a.isFinite = true := by
  rw [zero_lt_iff] at h
  rw [isFinite_eq]
  cases hu : a.toModel.unpack with
  | infinity s =>
    cases s with
    | negative => rw [hu] at h; cases h
    | positive => exact .inl rfl
  | notANumber => rw [hu] at h; cases h
  | zero s => rw [hu] at h; cases h
  | finite s m e hm => exact .inr rfl

theorem holds_of_pos (h : a.isFinite = true) (hpos : Scalar.zero < a) :
    Holds a (value a) ∧ 0 < value a := by
  have hvalue : 0 < value a := by
    rw [← holds_zero.value]
    exact (lt_iff holds_zero.finite h).mp hpos
  exact ⟨⟨h, hvalue.le, rfl⟩, hvalue⟩

/-- what is finite is less than what is not -/
theorem compare_infinity (ha : a.isFinite = true) (hb : b.toModel.unpack = .infinity .positive) :
    a.toModel.unpack.compare b.toModel.unpack = some .lt ∧
      b.toModel.unpack.compare a.toModel.unpack = some .gt := by
  rw [hb]
  rcases unpack_of_finite ha with ⟨s, hua⟩ | ⟨s, m, e, hm, hua⟩ <;> rw [hua]
  · exact ⟨rfl, rfl⟩
  · cases s <;> exact ⟨rfl, rfl⟩

theorem le_iff_not_lt (ha : a.isFinite = true) (hb : Scalar.zero < b) : a ≤ b ↔ ¬ b < a := by
  rcases unpack_of_pos hb with hub | hfinite
  · obtain ⟨hlt, hgt⟩ := compare_infinity ha hub
    rw [le_eq, lt_eq, hlt, hgt]
    decide
  · rw [le_iff ha hfinite, lt_iff hfinite ha, not_lt]

/-- a finite number that is not below a positive one is positive, and the other one is finite -/
theorem pos_of_le (ha : a.isFinite = true) (hb : Scalar.zero < b) (h : b ≤ a) :
    b.isFinite = true ∧ Scalar.zero < a := by
  rcases unpack_of_pos hb with hub | hfinite
  · rw [le_eq, (compare_infinity ha hub).2] at h
    cases h
  · refine ⟨hfinite, (lt_iff holds_zero.finite ha).mpr ?_⟩
    exact ((lt_iff holds_zero.finite hfinite).mp hb).trans_le ((le_iff hfinite ha).mp h)

theorem pos_of_lt (ha : a.isFinite = true) (hb : Scalar.zero < b) (h : b < a) :
    b.isFinite = true ∧ Scalar.zero < a := by
  have hle : b ≤ a := by
    rw [lt_eq, beq_iff_eq] at h
    rw [le_eq, h]
    rfl
  exact pos_of_le ha hb hle

/-! ## quotients -/

theorem not_pos_of_stands {u : UnpackedFloat} {v : ℚ} (hu : Stands .negative v u) :
    isPositive (Float32.Model.pack u).unpack = false := by
  rcases hu with ⟨-, rfl⟩ | ⟨m, e, hm, hw, -, rfl⟩
  · rw [unpack_pack_zero]
    rfl
  · by_cases he : e ≤ 104
    · rw [unpack_pack hw he]
      rfl
    · rw [unpack_pack_large (not_le.mp he)]
      rfl

/-- a zero, whatever its sign, is not positive -/
theorem not_pos_zero (s : Sign) : isPositive (Float32.Model.pack (.zero s)).unpack = false := by
  rw [unpack_pack_zero]
  rfl

theorem not_pos_div_infinity (ha : a.isFinite = true)
    (hb : b.toModel.unpack = .infinity .positive) : ¬ Scalar.zero < a / b := by
  rw [zero_lt_iff, Bool.not_eq_true, div_eq, hb]
  rcases unpack_of_finite ha with ⟨s, hua⟩ | ⟨s, m, e, hm, hua⟩ <;> rw [hua]
  · exact not_pos_zero _
  · exact not_pos_zero _

theorem not_pos_div (ha : a.isFinite = true) (h : ¬ Scalar.zero < a) (hb : Scalar.zero < b) :
    ¬ Scalar.zero < a / b := by
  rcases unpack_of_pos hb with hub | hfinite
  · exact not_pos_div_infinity ha hub
  · rw [zero_lt_iff, Bool.not_eq_true] at h ⊢
    rw [div_eq]
    obtain ⟨hb, hpos⟩ := holds_of_pos hfinite hb
    rcases hb.unpack with ⟨h0, -⟩ | ⟨m', e', hm', -, -, -, hub⟩
    · exact absurd h0 hpos.ne'
    · rcases unpack_of_finite ha with ⟨s, hua⟩ | ⟨s, m, e, hm, hua⟩ <;> rw [hua, hub]
      · exact not_pos_zero _
      · cases s with
        | positive => rw [hua] at h; cases h
        | negative =>
          obtain ⟨v, -, hv⟩ := div_spec (s := .negative) hm hm' e e'
          exact not_pos_of_stands hv

end

end TerrainPatches
