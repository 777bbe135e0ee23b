import Mathlib
import TerrainPatches.Mesh.Stitch

/-!
# The stride along a side, in closed form

`stride` searches downward; what it finds is the greatest power of two that divides the number of
intervals and is at most `2 ^ delta` (`isGreatest_stride`).  A grid without a ring to stitch uses
every vertex, which is the same number again (`borderStride_stride`).
-/

namespace TerrainPatches

/-! ## deltas -/

namespace Seams

theorem toNat_edgeBits (seams : Seams) : seams.edgeBits.toNat = seams.bits.toNat % 65536 := by
  have m : seams.bits.toNat &&& (0xffff : UInt32).toNat = seams.bits.toNat % 65536 :=
    Nat.and_two_pow_sub_one_eq_mod seams.bits.toNat 16
  rw [edgeBits, UInt32.toNat_toUInt16, UInt32.toNat_and, m]
  exact Nat.mod_mod _ _

theorem toNat_delta (seams : Seams) (side : Side) :
    (seams.delta side).toNat = seams.bits.toNat / 2 ^ side.shift.toNat % 16 := by
  have m : ∀ k, k &&& (0xf : UInt32).toNat = k % 16 := fun k => Nat.and_two_pow_sub_one_eq_mod k 4
  have hs : side.shift.toNat % 32 = side.shift.toNat := by cases side <;> rfl
  rw [delta, UInt32.toNat_toUInt8, UInt32.toNat_and, UInt32.toNat_shiftRight, m,
    Nat.shiftRight_eq_div_pow, hs]
  omega

theorem delta_lt (seams : Seams) (side : Side) : (seams.delta side).toNat < 16 := by
  rw [toNat_delta]
  exact Nat.mod_lt _ (by decide)

theorem delta_of_not_anyDelta {seams : Seams} (h : seams.anyDelta = false) (side : Side) :
    seams.delta side = 0 := by
  have h0 : seams.bits.toNat % 65536 = 0 := by
    rw [← toNat_edgeBits, bne_eq_false_iff_eq.mp h]
    rfl
  apply UInt8.toNat.inj
  rw [toNat_delta]
  cases side <;> simp only [Side.shift, UInt32.toNat_ofNat] <;> norm_num <;> omega

end Seams

namespace Mesh

/-! ## the stride -/

theorem stride_pos (last : Nat) (delta : UInt8) : 0 < stride last delta := powerStride_pos _ _

theorem stride_dvd (last : Nat) (delta : UInt8) : stride last delta ∣ last := powerStride_dvd _ _

theorem stride_zero (last : Nat) : stride last 0 = 1 := rfl

theorem stride_one (delta : UInt8) : stride 1 delta = 1 :=
  Nat.dvd_one.mp (stride_dvd 1 delta)

theorem powerStride_eq_pow (intervals k : Nat) : ∃ j ≤ k, powerStride intervals k = 2 ^ j := by
  induction k with
  | zero => exact ⟨0, le_rfl, rfl⟩
  | succ k ih =>
    unfold powerStride
    split
    · exact ⟨k + 1, le_rfl, rfl⟩
    · obtain ⟨j, hj, e⟩ := ih
      exact ⟨j, Nat.le_succ_of_le hj, e⟩

theorem le_powerStride {intervals : Nat} (hi : 0 < intervals) {j : Nat} (hd : 2 ^ j ∣ intervals) :
    ∀ k : Nat, j ≤ k → 2 ^ j ≤ powerStride intervals k
  | 0, hj => by
    rw [Nat.le_zero.mp hj]
    exact le_rfl
  | k + 1, hj => by
    unfold powerStride
    split
    · exact Nat.pow_le_pow_right two_pos hj
    · next hno =>
      refine le_powerStride hi hd k (Nat.le_of_lt_succ (lt_of_le_of_ne hj ?_))
      rintro rfl
      exact hno ⟨Nat.le_of_dvd hi hd, Nat.mod_eq_zero_of_dvd hd⟩

/-- **The stride is the greatest power of two up to `2 ^ delta` that divides the side.** -/
theorem isGreatest_stride {last : Nat} (hl : 0 < last) (seams : Seams) (side : Side) :
    IsGreatest {m | (∃ k, m = 2 ^ k) ∧ m ∣ last ∧ m ≤ 2 ^ (seams.delta side).toNat}
      (stride last (seams.delta side)) := by
  have hd : min (seams.delta side).toNat 15 = (seams.delta side).toNat := by
    have := seams.delta_lt side
    omega
  unfold stride
  rw [hd]
  constructor
  · obtain ⟨j, hj, e⟩ := powerStride_eq_pow last (seams.delta side).toNat
    refine ⟨⟨j, e⟩, powerStride_dvd _ _, ?_⟩
    rw [e]
    exact Nat.pow_le_pow_right two_pos hj
  · rintro m ⟨⟨k, rfl⟩, hdvd, hle⟩
    exact le_powerStride hl hdvd _ ((Nat.pow_le_pow_iff_right one_lt_two).mp hle)

/-- a side that its delta divides is stitched to every `2 ^ delta`-th vertex -/
theorem stride_of_pow_dvd {last : Nat} (hl : 0 < last) {seams : Seams} {side : Side}
    (hd : 2 ^ (seams.delta side).toNat ∣ last) :
    stride last (seams.delta side) = 2 ^ (seams.delta side).toNat := by
  refine (isGreatest_stride hl seams side).unique ⟨⟨⟨_, rfl⟩, hd, le_rfl⟩, ?_⟩
  rintro m ⟨-, -, hle⟩
  exact hle

/-! ## grids without a ring -/

theorem rings_iff {n : Nat} {seams : Seams} :
    rings n seams = true ↔ 3 ≤ n ∧ seams.anyDelta = true := by
  rw [rings, Bool.and_eq_true, decide_eq_true_iff, and_comm]

theorem three_le_of_rings {n : Nat} {seams : Seams} (h : rings n seams = true) : 3 ≤ n :=
  (rings_iff.mp h).1

theorem stride_of_not_rings {n : Nat} (h2 : 2 ≤ n) {seams : Seams} (h : rings n seams = false)
    (side : Side) : stride (n - 1) (seams.delta side) = 1 := by
  simp only [rings, Bool.and_eq_false_iff, decide_eq_false_iff_not] at h
  rcases h with h | h
  · rw [Seams.delta_of_not_anyDelta h, stride_zero]
  · rw [show n - 1 = 1 by omega, stride_one]

/-- the stride that a side of a grid with `n` vertices per edge is to have -/
def BorderStride (n : Nat) (seams : Seams) (side : Side) (s : Nat) : Prop :=
  if n = 2 ∨ seams.anyDelta = false then s = 1
  else IsGreatest {m | (∃ k, m = 2 ^ k) ∧ m ∣ n - 1 ∧ m ≤ 2 ^ (seams.delta side).toNat} s

theorem borderStride_stride {n : Nat} (h2 : 2 ≤ n) (seams : Seams) (side : Side) :
    BorderStride n seams side (stride (n - 1) (seams.delta side)) := by
  unfold BorderStride
  split
  · next h =>
    refine stride_of_not_rings h2 ?_ side
    rw [rings, Bool.and_eq_false_iff, decide_eq_false_iff_not]
    rcases h with h | h
    · exact .inr (by omega)
    · exact .inl h
  · exact isGreatest_stride (by omega) seams side

end Mesh

end TerrainPatches
