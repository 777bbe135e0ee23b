import TerrainPatches.Proofs.Mesh.Reading
import TerrainPatches.Proofs.Quadtree.Cells

/-!
# A grid without seams is covered

Without a coarser neighbour the triangles are those of all cells, two for each.  So with at least
two vertices per edge every point of the grid belongs to a triangle (`covers_indices`), and with
fewer there is no triangle at all (`isEmpty_indices`).
-/

namespace TerrainPatches

/-- every point of a grid with `n` vertices along an edge belongs to a triangle that is drawn -/
def Indices.Covers (n : Nat) (i : Indices) : Prop :=
  ∀ z : ℝ × ℝ, 0 ≤ z.1 ∧ z.1 ≤ (n - 1 : Nat) → 0 ≤ z.2 ∧ z.2 ≤ (n - 1 : Nat) →
    ∃ t ∈ i.drawn n, z ∈ t.region

namespace Mesh

theorem triangles_none (n : Nat) : triangles n .none = if n < 2 then [] else block 0 (n - 1) := by
  split
  · next h => exact triangles_of_lt h .none
  · next h => exact triangles_of_not_rings (not_lt.mp h) rfl

/-- two triangles cover a cell, on both sides of its diagonal -/
theorem exists_triangle_cell {x y : Nat} {z : ℝ × ℝ} (hx : x ≤ z.1 ∧ z.1 ≤ x + 1)
    (hy : y ≤ z.2 ∧ z.2 ≤ y + 1) : ∃ t ∈ cell x y, z ∈ t.region := by
  obtain ⟨hx₀, hx₁⟩ := hx
  obtain ⟨hy₀, hy₁⟩ := hy
  unfold cell
  cases falling x y with
  | true =>
    rw [if_pos rfl]
    by_cases h : 1 ≤ z.1 - x + (z.2 - y)
    · refine ⟨_, List.mem_cons_self, Plane.mem_hull ?_ ?_ ?_ ?_⟩ <;>
        simp only [Triangle.of, GridPoint.plane, Plane.turn] <;> push_cast <;> linarith
    · refine ⟨_, List.mem_cons_of_mem _ List.mem_cons_self, Plane.mem_hull ?_ ?_ ?_ ?_⟩ <;>
        simp only [Triangle.of, GridPoint.plane, Plane.turn] <;> push_cast <;> linarith
  | false =>
    rw [if_neg Bool.false_ne_true]
    by_cases h : z.1 - x ≤ z.2 - y
    · refine ⟨_, List.mem_cons_self, Plane.mem_hull ?_ ?_ ?_ ?_⟩ <;>
        simp only [Triangle.of, GridPoint.plane, Plane.turn] <;> push_cast <;> linarith
    · refine ⟨_, List.mem_cons_of_mem _ List.mem_cons_self, Plane.mem_hull ?_ ?_ ?_ ?_⟩ <;>
        simp only [Triangle.of, GridPoint.plane, Plane.turn] <;> push_cast <;> linarith

/-- **Every point of the grid belongs to a triangle.** -/
theorem exists_triangle {n : Nat} (h2 : 2 ≤ n) {z : ℝ × ℝ} (hx : 0 ≤ z.1 ∧ z.1 ≤ (n - 1 : Nat))
    (hy : 0 ≤ z.2 ∧ z.2 ≤ (n - 1 : Nat)) : ∃ t ∈ triangles n .none, z ∈ t.region := by
  obtain ⟨x, hxn, hx⟩ := TexRect.exists_interval (by omega) hx.1 hx.2
  obtain ⟨y, hyn, hy⟩ := TexRect.exists_interval (by omega) hy.1 hy.2
  obtain ⟨t, ht, hz⟩ := exists_triangle_cell hx hy
  refine ⟨t, ?_, hz⟩
  rw [triangles_none, if_neg (by omega)]
  refine List.mem_flatMap.mpr ⟨y, ?_, List.mem_flatMap.mpr ⟨x, ?_, ht⟩⟩ <;>
    rw [List.mem_range'_1] <;> omega

theorem covers_indices {n : Nat} (h2 : 2 ≤ n) (hn : n ≤ 65536) : (indices n .none).Covers n := by
  intro z hx hy
  rw [drawn_indices h2 hn]
  exact exists_triangle h2 hx hy

theorem isEmpty_indices (n : Nat) : (indices n .none).isEmpty = true ↔ n < 2 := by
  have empty : (indices n .none).isEmpty = true ↔ triangles n .none = [] := by
    rw [Indices.isEmpty, beq_iff_eq, length_indices, mul_eq_zero, or_iff_right (by norm_num),
      List.length_eq_zero_iff]
  rw [empty]
  constructor
  · intro h
    by_contra hn
    obtain ⟨t, ht, -⟩ := exists_triangle (z := (0, 0)) (not_lt.mp hn)
      ⟨le_rfl, Nat.cast_nonneg _⟩ ⟨le_rfl, Nat.cast_nonneg _⟩
    rw [h] at ht
    cases ht
  · intro h
    exact triangles_of_lt h .none

end Mesh

end TerrainPatches
