import TerrainPatches.Composite
import TerrainPatches.Proofs.Quadtree.Partition

/-!
# The frames of the leaves

A leaf is drawn in device coordinates, from -1 to 1.  Up to level twenty-four nothing is rounded on
the way there either: the centers of the frames are odd multiples of a power of two, less one
(`TexRect.Holds.frame_center`).  So two leaves on one level never have one center, and their keys
differ (`nodup_keys`).  Which keys the leaves have depends on the size of the patch alone, not on
where it is (`map_ofSquare_quarterings`).
-/

namespace TerrainPatches

/-! ## centers -/

section
variable {a b : Float32} {i k : Nat}

/-- a number on a grid between -1 and 1 can be written -/
theorem writable_abs {q : ℚ} {n : ℤ} (h : q = n / 2 ^ k) (hn : n.natAbs ≤ 2 ^ k) (hk : k ≤ 24) :
    Writable |q| ∧ |q| < ceiling := by
  have size : |q| = n.natAbs / 2 ^ k := by
    rw [h, abs_div, abs_of_pos (show (0 : ℚ) < 2 ^ k by positivity), Nat.cast_natAbs, Int.cast_abs]
  exact writable_of_eq_div size (hn.trans (Nat.pow_le_pow_right (by norm_num) hk)) (by omega)

/-- twice a coordinate of the texture -/
theorem Holds.double (ha : Holds a (i / 2 ^ k)) (hi : i < 2 ^ k) (hk : k ≤ 24) :
    Holds (a * Scalar.two) (i / 2 ^ k * 2) := by
  have h24 : i ≤ 2 ^ 24 := hi.le.trans (Nat.pow_le_pow_right (by norm_num) hk)
  have double : (i / 2 ^ k * 2 : ℚ) = amount i (1 - k) := by
    rw [amount, sub_eq_add_neg, zpow_add₀ (by norm_num), zpow_neg, zpow_natCast, zpow_one]
    ring
  have hlt : (i / 2 ^ k * 2 : ℚ) < ceiling := by
    have below : (i / 2 ^ k : ℚ) ≤ 1 := (div_le_one (by positivity)).mpr (by exact_mod_cast hi.le)
    refine (mul_le_mul_of_nonneg_right below two_pos.le).trans_lt ?_
    unfold ceiling
    norm_num
  refine ha.mul_exact holds_two ?_ hlt
  rw [double]
  exact writable_of_le h24 (by omega)

/-- the middle of a cell, moved from the texture to the device -/
theorem denotes_middle (ha : Holds a (i / 2 ^ k)) (hb : Holds b (1 / 2 ^ k)) (hi : i < 2 ^ k)
    (hk : k ≤ 24) :
    Denotes (a * Scalar.two - Scalar.one + b) ((2 * i + 1) / 2 ^ k - 1) := by
  have corner : (i / 2 ^ k * 2 - 1 : ℚ) = (2 * i - 2 ^ k : ℤ) / 2 ^ k := by
    push_cast
    field_simp
  have middle : (i / 2 ^ k * 2 - 1 + 1 / 2 ^ k : ℚ) = (2 * i + 1 - 2 ^ k : ℤ) / 2 ^ k := by
    push_cast
    field_simp
    ring
  have within : (i : ℤ) < 2 ^ k := by exact_mod_cast hi
  obtain ⟨hw, hlt⟩ := writable_abs corner (by zify; rw [abs_le]; omega) hk
  obtain ⟨hw', hlt'⟩ := writable_abs middle (by zify; rw [abs_le]; omega) hk
  have sum := ((ha.double hi hk).denotes.sub holds_one.denotes hw hlt).add hb.denotes hw' hlt'
  rwa [show (i / 2 ^ k * 2 - 1 + 1 / 2 ^ k : ℚ) = (2 * i + 1) / 2 ^ k - 1 by ring] at sum

end

namespace TexRect

variable {r : TexRect Float32} {k : Nat} {p : GridPoint}

theorem Holds.frame_center (h : r.Holds (cell k p)) (hp : p ∈ Grid.points (2 ^ k)) (hk : k ≤ 24) :
    Denotes r.frame.center.x ((2 * p.x + 1) / 2 ^ k - 1) ∧
      Denotes r.frame.center.y ((2 * p.y + 1) / 2 ^ k - 1) := by
  obtain ⟨hx, hy⟩ := Grid.mem_points.mp hp
  exact ⟨denotes_middle h.x h.width hx hk, denotes_middle h.y h.height hy hk⟩

/-- the centers of the rectangles on a level are all different -/
theorem nodup_centers (hk : k ≤ 24) :
    ((cells k (unit : TexRect Float32)).map fun r => r.frame.center).Nodup := by
  refine List.pairwise_map.mpr ((pairwise_holds hk).imp ?_)
  intro r r' h same
  obtain ⟨p, hp, q, hq, hr, hr', hne⟩ := h
  obtain ⟨hx, hy⟩ := hr.frame_center hp hk
  obtain ⟨hx', hy'⟩ := hr'.frame_center hq hk
  have place {a : Float32} {i j : Nat} (hi : Denotes a ((2 * i + 1) / 2 ^ k - 1))
      (hj : Denotes a ((2 * j + 1) / 2 ^ k - 1)) : i = j := by
    have hpos : (2 ^ k : ℚ) ≠ 0 := by positivity
    have equal := hi.value.symm.trans hj.value
    rw [sub_left_inj, div_left_inj' hpos] at equal
    norm_cast at equal
    omega
  rw [← same] at hx' hy'
  apply hne
  cases p
  cases q
  rw [GridPoint.mk.injEq]
  exact ⟨place hx hx', place hy hy'⟩

end TexRect

/-! ## keys -/

namespace Quadtree

theorem map_ofSquare_quarterings (k : Nat) (size : Float32) (center : Point2 Float32) :
    (quarterings k (.whole size center)).map TileKey.ofSquare
      = (TexRect.cells k TexRect.unit).map fun r =>
          ⟨halved k size, r.frame.center, r.frame.width⟩ := by
  have rects := map_rect_quarterings k (Square.whole size center)
  change _ = TexRect.cells k TexRect.unit at rects
  rw [← rects, List.map_map]
  refine List.map_congr_left ?_
  intro s hs
  rw [TileKey.ofSquare, size_of_mem_quarterings hs]
  rfl

/-- **The leaves on a level have different keys.** -/
theorem nodup_keys {k : Nat} (hk : k ≤ 24) (size : Float32) (center : Point2 Float32) :
    ((quarterings k (.whole size center)).map TileKey.ofSquare).Nodup := by
  have centers := TexRect.nodup_centers hk
  rw [map_ofSquare_quarterings]
  rw [List.Nodup, List.pairwise_map] at centers ⊢
  exact centers.imp fun hne same => hne (congrArg TileKey.center same)

end Quadtree

end TerrainPatches
