import TerrainPatches.Proofs.Quadtree.Depth
import TerrainPatches.Proofs.Single.Whole
import TerrainPatches.Resolution

/-!
# Leaves that have an interval

A leaf that is not the whole patch is at least half as large as the greatest one.  So if an interval
of a cell fits into half of the greatest leaf and into the whole patch, it fits into every leaf
(`spans_of_settles`), and then every leaf has an interval at full detail (`one_le_intervals`).
-/

namespace TerrainPatches

open Float.Model Float.Model.UnpackedFloat

/-- an interval of a cell fits into this size -/
def Spans (cellVertices : Nat) (q : ℚ) : Prop :=
  1 ≤ value (Scalar.ofNat (cellVertices - 1)) * q

section
variable {cellVertices k : Nat} {size maxSize : Float32} {q q' x : ℚ}

theorem Spans.mono (h : Spans cellVertices q) (hq : q ≤ q') : Spans cellVertices q' := by
  obtain ⟨x, -, hx⟩ := holds_ofNat (cellVertices - 1)
  unfold Spans at h ⊢
  rw [hx.value] at h ⊢
  exact h.trans (mul_le_mul_of_nonneg_left hq hx.nonneg)

/-- a size with an interval is not tiny -/
theorem Spans.lt (h : Spans cellVertices q) : amount (2 ^ 23) (-149) < q := by
  obtain ⟨x, hle, hx⟩ := holds_ofNat (cellVertices - 1)
  unfold Spans at h
  rw [hx.value] at h
  by_contra hq
  have least : 0 < amount (2 ^ 23) (-149) := amount_pos (by norm_num) _
  have product : x * q ≤ 2 ^ 64 * amount (2 ^ 23) (-149) :=
    calc x * q ≤ x * amount (2 ^ 23) (-149) := mul_le_mul_of_nonneg_left (not_lt.mp hq) hx.nonneg
      _ ≤ 2 ^ 64 * amount (2 ^ 23) (-149) := mul_le_mul_of_nonneg_right hle least.le
  refine absurd (h.trans product) (not_le.mpr ?_)
  unfold amount
  norm_num

/-- the intervals at full detail -/
theorem intervals_zero (cellVertices : Nat) (size : Float32) :
    intervals cellVertices size 0 = Scalar.toNat (Scalar.ofNat (cellVertices - 1) * size) :=
  toNat_div_one _

theorem one_le_intervals (hsize : Holds size q) (h : Spans cellVertices q) :
    1 ≤ intervals cellVertices size 0 := by
  obtain ⟨x, -, hx⟩ := holds_ofNat (cellVertices - 1)
  unfold Spans at h
  rw [hx.value] at h
  obtain ⟨v, hv, hfits, hlarge⟩ := hx.mul hsize
  have hone : 1 ≤ v := (hv 1 holds_one.writable).1 h
  rw [intervals_zero, one_le_toNat_iff]
  by_cases hlt : v < ceiling
  · have hprod := hfits hlt
    rw [le_iff holds_one.finite hprod.finite, holds_one.value, hprod.value]
    exact hone
  · rw [le_eq, (compare_infinity holds_one.finite (hlarge (not_lt.mp hlt))).1]
    rfl

theorem spans_of_settles (hsize : Holds size x) (hmax : Scalar.zero < maxSize)
    (hk : Settles maxSize size k) (half : Spans cellVertices (value maxSize / 2))
    (whole : Spans cellVertices x) :
    ∃ y, Holds (halved k size) y ∧ Spans cellVertices y := by
  cases k with
  | zero => exact ⟨x, hsize, whole⟩
  | succ j =>
    have hlt := hk.lt (Nat.lt_succ_self j)
    have hfinite := hsize.halved j
    obtain ⟨hmaxFinite, hpos⟩ := pos_of_lt hfinite hmax hlt
    obtain ⟨hy, -⟩ := holds_of_pos hmaxFinite hmax
    obtain ⟨v, hv, hrounds⟩ := (holds_of_pos hfinite hpos).1.halve
    rw [halved_succ]
    refine ⟨v, hv, half.mono ((hrounds _ (hy.writable.half half.lt)).1 ?_)⟩
    exact div_le_div_of_nonneg_right ((lt_iff hmaxFinite hfinite).mp hlt).le two_pos.le

end

end TerrainPatches
