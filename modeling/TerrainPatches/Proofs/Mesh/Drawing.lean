import TerrainPatches.Proofs.Mesh.Reading
import TerrainPatches.Proofs.Mesh.Stride

/-!
# What an index list draws

For every number `n` of vertices per edge from 2 to 65536 and all seams:

* `drawn_tile`         the triangles are not flat, and every point of the open square that lies on
                       no side is inside exactly one of them;
* `drawn_left_iff`     they are all listed counterclockwise iff `n ≤ 3` or no neighbour is coarser;
                       otherwise the fan of the east side is listed clockwise, and nothing else;
* `drawn_conforming`   inner sides are shared by two triangles, the sides on a border are the
                       segments between the multiples of its stride, and no triangle has a corner
                       within a side.
-/

namespace TerrainPatches

namespace Mesh

/-! ## tiling -/

section
open scoped Classical

/-- **No hole and no overlap.** -/
theorem drawn_tile {n : Nat} (h2 : 2 ≤ n) (hn : n ≤ 65536) (seams : Seams) :
    (∀ t ∈ (indices n seams).drawn n, t.signedArea ≠ 0) ∧
      ∀ p : ℝ × ℝ, p.1 ∈ Set.Ioo (0 : ℝ) (n - 1) → p.2 ∈ Set.Ioo (0 : ℝ) (n - 1) →
        (∀ t ∈ (indices n seams).drawn n, ¬ t.OnSide p) →
          ((indices n seams).drawn n).countP (fun t => p ∈ interior t.region) = 1 := by
  have T := tessellation h2 seams
  rw [drawn_indices h2 hn]
  refine ⟨fun t ht => Triangle.signedArea_ne_zero.mpr (T.turned t ht), fun p hx hy hside => ?_⟩
  have e : (n : ℝ) - 1 = (n - 1 : ℕ) := by
    rw [Nat.cast_sub (by omega), Nat.cast_one]
  rw [e] at hx hy
  exact T.countP_inside hx hy hside

/-- a point with coordinates `x / k` and `y / k` is off the sides if it is off their lines -/
theorem not_onSide_of_scaled {t : Triangle} {x y k : ℤ} (hk : k ≠ 0)
    (h : ∀ e ∈ t.sides, ((e.2.x : ℤ) - e.1.x) * (y - k * e.1.y)
      - (x - k * e.1.x) * ((e.2.y : ℤ) - e.1.y) ≠ 0) : ¬ t.OnSide ((x : ℝ) / k, (y : ℝ) / k) := by
  rintro ⟨e, he, hp⟩
  apply h e he
  have hk' : (k : ℝ) ≠ 0 := Int.cast_ne_zero.mpr hk
  have h0 := Plane.turn_of_mem_segment hp
  have h1 : (k : ℝ) * Plane.turn e.1.plane e.2.plane ((x : ℝ) / k, (y : ℝ) / k) = 0 := by
    rw [h0, mul_zero]
  unfold Plane.turn GridPoint.plane at h1
  have hx : (k : ℝ) * ((x : ℝ) / k) = x := mul_div_cancel₀ _ hk'
  have hy : (k : ℝ) * ((y : ℝ) / k) = y := mul_div_cancel₀ _ hk'
  have h2 : (((e.2.x : ℝ) - e.1.x) * (y - k * e.1.y)
      - (x - k * e.1.x) * ((e.2.y : ℝ) - e.1.y)) = 0 := by
    rw [← h1]
    linear_combination ((e.2.y : ℝ) - e.1.y) * hx - ((e.2.x : ℝ) - e.1.x) * hy
  exact_mod_cast h2

/-- five vertices per edge, stride 2 in the south and 4 in the west: the point `(1/3, 6/7)` -/
theorem drawn_tile_five : 2 ≤ 5 ∧ 5 ≤ 65536 ∧
    ((1 : ℝ) / 3, (6 : ℝ) / 7).1 ∈ Set.Ioo (0 : ℝ) ((5 : ℕ) - 1) ∧
    ((1 : ℝ) / 3, (6 : ℝ) / 7).2 ∈ Set.Ioo (0 : ℝ) ((5 : ℕ) - 1) ∧
    (∀ t ∈ (indices 5 ⟨0x2100⟩).drawn 5, ¬ t.OnSide ((1 : ℝ) / 3, (6 : ℝ) / 7)) ∧
    ((indices 5 ⟨0x2100⟩).drawn 5).countP
      (fun t => ((1 : ℝ) / 3, (6 : ℝ) / 7) ∈ interior t.region) = 1 := by
  have hx : ((1 : ℝ) / 3, (6 : ℝ) / 7).1 ∈ Set.Ioo (0 : ℝ) ((5 : ℕ) - 1) := by
    constructor <;> norm_num
  have hy : ((1 : ℝ) / 3, (6 : ℝ) / 7).2 ∈ Set.Ioo (0 : ℝ) ((5 : ℕ) - 1) := by
    constructor <;> norm_num
  have hside : ∀ t ∈ (indices 5 ⟨0x2100⟩).drawn 5, ¬ t.OnSide ((1 : ℝ) / 3, (6 : ℝ) / 7) := by
    rw [drawn_indices (by decide) (by decide)]
    intro t ht
    have e : ((1 : ℝ) / 3, (6 : ℝ) / 7) = (((7 : ℤ) : ℝ) / (21 : ℤ), ((18 : ℤ) : ℝ) / (21 : ℤ)) := by
      norm_num
    rw [e]
    refine not_onSide_of_scaled (by decide) ?_
    revert t
    decide +kernel
  exact ⟨by decide, by decide, hx, hy, hside,
    (drawn_tile (by decide) (by decide) ⟨0x2100⟩).2 _ hx hy hside⟩

end

/-! ## winding -/

/-- **When all triangles are listed counterclockwise.** -/
theorem drawn_left_iff {n : Nat} (h2 : 2 ≤ n) (hn : n ≤ 65536) (seams : Seams) :
    ((∀ t ∈ (indices n seams).drawn n, 0 < t.signedArea) ↔ n ≤ 3 ∨ seams.anyDelta = false) ∧
      ∀ t ∈ (indices n seams).drawn n, ¬ 0 < t.signedArea →
        ∃ y e, t = .of (n - 2) (y + 1) (n - 1) e (n - 2) y := by
  rw [drawn_indices h2 hn]
  have h := exists_right_iff h2 seams
  simp only [Triangle.signedArea_pos]
  refine ⟨⟨fun hall => ?_, fun hcase t ht => ?_⟩, fun t ht hneg => ?_⟩
  · by_contra hno
    rw [not_or, Bool.not_eq_false] at hno
    obtain ⟨t, ht, hle⟩ := h.mpr ⟨by omega, hno.2⟩
    exact absurd (hall t ht) (not_lt.mpr hle)
  · by_contra hno
    obtain ⟨h4, ha⟩ := h.mp ⟨t, ht, not_lt.mp hno⟩
    rcases hcase with hc | hc
    · omega
    · rw [ha] at hc
      exact absurd hc (by decide)
  · exact eq_of_not_left h2 t ht (not_lt.mp hneg)

theorem drawn_left_iff_five : 2 ≤ 5 ∧ 5 ≤ 65536 ∧
    ((∀ t ∈ (indices 5 ⟨0x2100⟩).drawn 5, 0 < t.signedArea) ↔
      5 ≤ 3 ∨ Seams.anyDelta ⟨0x2100⟩ = false) :=
  ⟨by decide, by decide, (drawn_left_iff (by decide) (by decide) ⟨0x2100⟩).1⟩

/-- four vertices per edge and a coarser neighbour in the north: the fan of the east side has one
triangle, and its corners are listed clockwise -/
theorem east_fan_listed_clockwise : .of 2 2 3 2 2 1 ∈ (indices 4 ⟨1⟩).drawn 4 ∧
    (Triangle.of 2 2 3 2 2 1).signedArea = - 1 / 2 :=
  ⟨by decide +kernel, by rfl⟩

/-! ## conformity -/

/-- **Neighbouring triangles share whole sides, and the borders have the strides of their seams.** -/
theorem drawn_conforming {n : Nat} (h2 : 2 ≤ n) (hn : n ≤ 65536) (seams : Seams) :
    ∃ s : Side → Nat, (∀ side, BorderStride n seams side (s side)) ∧
      Conforming (n - 1) s ((indices n seams).drawn n) := by
  refine ⟨fun side => stride (n - 1) (seams.delta side), borderStride_stride h2 seams, ?_⟩
  rw [drawn_indices h2 hn]
  exact (tessellation h2 seams).conforming

/-- five vertices per edge, stride 2 in the south and 4 in the west: the spoke at the corner
between them belongs to two triangles -/
theorem drawn_conforming_five : 2 ≤ 5 ∧ 5 ≤ 65536 ∧
    (∃ t ∈ (indices 5 ⟨0x2100⟩).drawn 5, t.HasSide ⟨0, 0⟩ ⟨1, 1⟩) ∧
    (¬ ∃ side : Side, side.On 4 ⟨0, 0⟩ ∧ side.On 4 ⟨1, 1⟩) ∧
    ((indices 5 ⟨0x2100⟩).drawn 5).countP (fun t => t.HasSide ⟨0, 0⟩ ⟨1, 1⟩) = 2 := by
  have hside : ∃ t ∈ (indices 5 ⟨0x2100⟩).drawn 5, t.HasSide ⟨0, 0⟩ ⟨1, 1⟩ := by decide +kernel
  have hin : ¬ ∃ side : Side, side.On 4 ⟨0, 0⟩ ∧ side.On 4 ⟨1, 1⟩ := by
    rintro ⟨side, h1, h2⟩
    cases side <;> simp [Side.On] at h1 h2
  obtain ⟨s, -, hs⟩ := drawn_conforming (n := 5) (by decide) (by decide) ⟨0x2100⟩
  obtain ⟨t, ht, h⟩ := hside
  exact ⟨by decide, by decide, ⟨t, ht, h⟩, hin, hs.inner_twice t ht _ _ h hin⟩

end Mesh

end TerrainPatches
