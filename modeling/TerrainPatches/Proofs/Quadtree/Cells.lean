import TerrainPatches.Grid
import TerrainPatches.Proofs.Quadtree.Levels

/-!
# The cells of the unit square

Over exact numbers, the rectangles on level `k` of the whole texture are the squares of a grid with
`2 ^ k` of them along an edge (`cell`), each once (`cells_perm`).  So they cover the unit square
(`mem_region_unit_iff`), and no two of them have a point inside both (`pairwise_cells`).
-/

namespace TerrainPatches

/-! ## constants among the exact numbers -/

namespace Scalar

theorem zero_rat : (zero : ℚ) = 0 := Nat.cast_zero

theorem one_rat : (one : ℚ) = 1 := Nat.cast_one

theorem two_rat : (two : ℚ) = 2 := Nat.cast_two

theorem four_rat : (four : ℚ) = 4 := Nat.cast_ofNat

theorem half_rat : (half : ℚ) = 1 / 2 := by rw [half, one_rat, two_rat]

end Scalar

/-! ## the rectangles on a level -/

namespace TexRect

/-- the rectangles some quarterings down -/
def cells {α : Type} [Scalar α] : Nat → TexRect α → List (TexRect α)
  | 0, r => [r]
  | k + 1, r => r.quadrants.flatMap fun q => cells k q.2

theorem length_cells {α : Type} [Scalar α] (k : Nat) (r : TexRect α) :
    (cells k r).length = 4 ^ k := by
  induction k generalizing r with
  | zero => rfl
  | succ k ih =>
    show (r.quadrants.flatMap fun q => cells k q.2).length = 4 ^ (k + 1)
    rw [List.length_flatMap, List.map_congr_left fun q _ => ih q.2, List.map_const',
      List.sum_replicate, r.quadrants_length, smul_eq_mul, Nat.pow_succ, Nat.mul_comm]

end TexRect

theorem Quadtree.map_rect_quarterings {α : Type} [Scalar α] (k : Nat) (s : Square α) :
    (quarterings k s).map (·.rect) = s.rect.cells k := by
  induction k generalizing s with
  | zero => rfl
  | succ k ih =>
    show (s.quarters.flatMap (quarterings k)).map _ = s.rect.quadrants.flatMap fun q => q.2.cells k
    rw [List.map_flatMap, List.flatMap_congr fun q _ => ih q, Square.quarters, List.flatMap_map]

namespace TexRect

/-! ## exact rectangles -/

/-- the square at a place of a grid with `2 ^ k` squares along an edge -/
def cell (k : Nat) (p : GridPoint) : TexRect ℚ :=
  ⟨⟨p.x / 2 ^ k, p.y / 2 ^ k⟩, Point2.fill (1 / 2 ^ k)⟩

theorem cell_injective {k : Nat} {p q : GridPoint} (h : cell k p = cell k q) : p = q := by
  have hpos : (2 ^ k : ℚ) ≠ 0 := by positivity
  simp only [cell, mk.injEq, Point2.mk.injEq, div_left_inj' hpos, Nat.cast_inj, and_true] at h
  cases p
  cases q
  rw [GridPoint.mk.injEq]
  exact h

theorem cell_zero : cell 0 ⟨0, 0⟩ = unit := by
  show (⟨⟨((0 : Nat) : ℚ) / 2 ^ 0, ((0 : Nat) : ℚ) / 2 ^ 0⟩, ⟨1 / 2 ^ 0, 1 / 2 ^ 0⟩⟩ : TexRect ℚ)
    = ⟨⟨((0 : Nat) : ℚ), ((0 : Nat) : ℚ)⟩, ⟨((1 : Nat) : ℚ), ((1 : Nat) : ℚ)⟩⟩
  norm_num

/-- the quarters of a cell are the four cells in its place on the next level -/
theorem mem_quadrants_cell {k : Nat} {p : GridPoint} {r : TexRect ℚ} :
    (∃ q ∈ (cell k p).quadrants, q.2 = r) ↔
      ∃ a < 2, ∃ b < 2, r = cell (k + 1) ⟨2 * p.x + a, 2 * p.y + b⟩ := by
  have half : (1 / 2 ^ k : ℚ) / 2 = 1 / 2 ^ (k + 1) := by rw [pow_succ]; ring
  have near (n : Nat) : (n : ℚ) / 2 ^ k = ((2 * n + 0 : Nat) : ℚ) / 2 ^ (k + 1) := by
    rw [pow_succ]; push_cast; ring
  have far (n : Nat) :
      (n : ℚ) / 2 ^ k + 1 / 2 ^ (k + 1) = ((2 * n + 1 : Nat) : ℚ) / 2 ^ (k + 1) := by
    rw [pow_succ]; push_cast; ring
  have quarters : (cell k p).quadrants.map Prod.snd =
      [cell (k + 1) ⟨2 * p.x + 1, 2 * p.y + 0⟩, cell (k + 1) ⟨2 * p.x + 0, 2 * p.y + 0⟩,
        cell (k + 1) ⟨2 * p.x + 1, 2 * p.y + 1⟩, cell (k + 1) ⟨2 * p.x + 0, 2 * p.y + 1⟩] := by
    have hhalf : (Point2.fill (1 / 2 ^ k : ℚ)).dividedBy Scalar.two
        = Point2.fill (1 / 2 ^ (k + 1)) := by
      show (⟨1 / 2 ^ k / Scalar.two, 1 / 2 ^ k / Scalar.two⟩ : Point2 ℚ) = _
      rw [Scalar.two_rat, half]
      rfl
    simp only [cell, ← near, ← far, quadrants, hhalf, List.map_cons, List.map_nil]
    rfl
  have mem : (∃ q ∈ (cell k p).quadrants, q.2 = r) ↔ r ∈ (cell k p).quadrants.map Prod.snd := by
    simp only [List.mem_map]
  rw [mem, quarters]
  simp only [List.mem_cons, List.not_mem_nil, or_false]
  constructor
  · rintro (h | h | h | h)
    · exact ⟨1, by omega, 0, by omega, h⟩
    · exact ⟨0, by omega, 0, by omega, h⟩
    · exact ⟨1, by omega, 1, by omega, h⟩
    · exact ⟨0, by omega, 1, by omega, h⟩
  · rintro ⟨a, ha, b, hb, rfl⟩
    interval_cases a <;> interval_cases b <;> simp

private theorem lt_double {k a c : Nat} (ha : a < 2) (hc : c < 2 ^ k) :
    2 ^ k * a + c < 2 ^ (k + 1) := by
  rw [pow_succ]
  interval_cases a <;> omega

private theorem div_lt_two {k a : Nat} (ha : a < 2 ^ (k + 1)) : a / 2 ^ k < 2 := by
  rw [pow_succ, mul_comm] at ha
  exact Nat.div_lt_of_lt_mul (by rwa [mul_comm])

/-- the cells in the place of a cell some levels down -/
theorem mem_cells_cell {k d : Nat} {p : GridPoint} {r : TexRect ℚ} :
    r ∈ cells k (cell d p) ↔ ∃ a < 2 ^ k, ∃ b < 2 ^ k,
      r = cell (d + k) ⟨2 ^ k * p.x + a, 2 ^ k * p.y + b⟩ := by
  induction k generalizing d p with
  | zero =>
    show r ∈ [cell d p] ↔ _
    rw [List.mem_singleton]
    simp
  | succ k ih =>
    have step : r ∈ cells (k + 1) (cell d p) ↔ ∃ a < 2, ∃ b < 2,
        r ∈ cells k (cell (d + 1) ⟨2 * p.x + a, 2 * p.y + b⟩) := by
      show r ∈ (cell d p).quadrants.flatMap (fun q => cells k q.2) ↔ _
      rw [List.mem_flatMap]
      constructor
      · rintro ⟨q, hq, hr⟩
        obtain ⟨a, ha, b, hb, h⟩ := mem_quadrants_cell.mp ⟨q, hq, rfl⟩
        exact ⟨a, ha, b, hb, h ▸ hr⟩
      · rintro ⟨a, ha, b, hb, hr⟩
        obtain ⟨q, hq, h⟩ := mem_quadrants_cell.mpr ⟨a, ha, b, hb, rfl⟩
        exact ⟨q, hq, h.symm ▸ hr⟩
    have level : d + 1 + k = d + (k + 1) := by omega
    have split (n a c : Nat) : 2 ^ k * (2 * n + a) + c = 2 ^ (k + 1) * n + (2 ^ k * a + c) := by
      rw [pow_succ]
      ring
    simp only [step, ih, level, split]
    constructor
    · rintro ⟨a, ha, b, hb, c, hc, e, he, rfl⟩
      exact ⟨2 ^ k * a + c, lt_double ha hc, 2 ^ k * b + e, lt_double hb he, rfl⟩
    · rintro ⟨a, ha, b, hb, rfl⟩
      have hpos : 0 < 2 ^ k := by positivity
      refine ⟨a / 2 ^ k, div_lt_two ha, b / 2 ^ k, div_lt_two hb, a % 2 ^ k, Nat.mod_lt _ hpos,
        b % 2 ^ k, Nat.mod_lt _ hpos, ?_⟩
      rw [Nat.div_add_mod, Nat.div_add_mod]

theorem mem_cells_unit {k : Nat} {r : TexRect ℚ} :
    r ∈ cells k unit ↔ r ∈ (Grid.points (2 ^ k)).map (cell k) := by
  rw [← cell_zero, mem_cells_cell, List.mem_map]
  constructor
  · rintro ⟨a, ha, b, hb, rfl⟩
    exact ⟨⟨a, b⟩, Grid.mem_points.mpr ⟨ha, hb⟩, by simp⟩
  · rintro ⟨p, hp, rfl⟩
    obtain ⟨hx, hy⟩ := Grid.mem_points.mp hp
    exact ⟨p.x, hx, p.y, hy, by simp⟩

theorem nodup_points (n : Nat) : (Grid.points n).Nodup := by
  refine List.nodup_flatMap.mpr ⟨?_, ?_⟩
  · intro x _
    exact List.nodup_range.map fun _ _ h => (GridPoint.mk.inj h).2
  · refine List.nodup_range.imp ?_
    intro x x' hx p hp hp'
    obtain ⟨y, -, rfl⟩ := List.mem_map.mp hp
    obtain ⟨y', -, h⟩ := List.mem_map.mp hp'
    exact hx (GridPoint.mk.inj h).1.symm

/-- **The rectangles on a level are the squares of a grid, each once.** -/
theorem cells_perm (k : Nat) :
    List.Perm (cells k (unit : TexRect ℚ)) ((Grid.points (2 ^ k)).map (cell k)) := by
  have nodup : ((Grid.points (2 ^ k)).map (cell k)).Nodup :=
    (nodup_points _).map fun _ _ => cell_injective
  have length : (cells k (unit : TexRect ℚ)).length
      ≤ ((Grid.points (2 ^ k)).map (cell k)).length := by
    rw [length_cells, List.length_map, Grid.length_points, ← mul_pow]
    exact le_rfl
  exact ((nodup.subperm fun r hr => mem_cells_unit.mpr hr).perm_of_length_le length).symm

theorem nodup_cells (k : Nat) : (cells k (unit : TexRect ℚ)).Nodup :=
  (cells_perm k).nodup_iff.mpr ((nodup_points _).map fun _ _ => cell_injective)

/-! ## in the plane -/

/-- the points of a rectangle -/
def region (r : TexRect ℚ) : Set (ℝ × ℝ) :=
  Set.Icc (r.minimum.x : ℝ) (r.maximum.x : ℝ) ×ˢ Set.Icc (r.minimum.y : ℝ) (r.maximum.y : ℝ)

theorem maximum_cell (k : Nat) (p : GridPoint) :
    (cell k p).maximum = ⟨(p.x + 1) / 2 ^ k, (p.y + 1) / 2 ^ k⟩ := by
  show (⟨p.x / 2 ^ k + 1 / 2 ^ k, p.y / 2 ^ k + 1 / 2 ^ k⟩ : Point2 ℚ) = _
  rw [← add_div, ← add_div]

theorem mem_region_cell {k : Nat} {p : GridPoint} {z : ℝ × ℝ} : z ∈ (cell k p).region ↔
    (p.x ≤ z.1 * 2 ^ k ∧ z.1 * 2 ^ k ≤ p.x + 1) ∧ (p.y ≤ z.2 * 2 ^ k ∧ z.2 * 2 ^ k ≤ p.y + 1) := by
  have hpos : (0 : ℝ) < 2 ^ k := by positivity
  rw [region, maximum_cell]
  simp only [cell, Set.mem_prod, Set.mem_Icc]
  push_cast
  simp only [div_le_iff₀ hpos, le_div_iff₀ hpos]

theorem interior_region (r : TexRect ℚ) : interior r.region =
    Set.Ioo (r.minimum.x : ℝ) (r.maximum.x : ℝ) ×ˢ Set.Ioo (r.minimum.y : ℝ) (r.maximum.y : ℝ) := by
  rw [region, interior_prod_eq, interior_Icc, interior_Icc]

theorem mem_interior_cell {k : Nat} {p : GridPoint} {z : ℝ × ℝ} :
    z ∈ interior (cell k p).region ↔
      (p.x < z.1 * 2 ^ k ∧ z.1 * 2 ^ k < p.x + 1) ∧
        (p.y < z.2 * 2 ^ k ∧ z.2 * 2 ^ k < p.y + 1) := by
  have hpos : (0 : ℝ) < 2 ^ k := by positivity
  rw [interior_region, maximum_cell]
  simp only [cell, Set.mem_prod, Set.mem_Ioo]
  push_cast
  simp only [div_lt_iff₀ hpos, lt_div_iff₀ hpos]

/-- the interval of a number that does not exceed a whole one -/
theorem exists_interval {n : Nat} {t : ℝ} (hn : 0 < n) (h₀ : 0 ≤ t) (h₁ : t ≤ n) :
    ∃ i < n, (i : ℝ) ≤ t ∧ t ≤ i + 1 := by
  by_cases h : t < n
  · exact ⟨⌊t⌋₊, (Nat.floor_lt h₀).mpr h, Nat.floor_le h₀, (Nat.lt_floor_add_one t).le⟩
  · have ht : t = n := le_antisymm h₁ (not_lt.mp h)
    have hcast : ((n - 1 : Nat) : ℝ) = n - 1 := by
      rw [Nat.cast_sub hn, Nat.cast_one]
    refine ⟨n - 1, by omega, ?_, ?_⟩ <;> rw [hcast, ht] <;> linarith

/-- **The cells cover the unit square.** -/
theorem mem_region_unit {k : Nat} {z : ℝ × ℝ} :
    z ∈ (unit : TexRect ℚ).region ↔ ∃ p ∈ Grid.points (2 ^ k), z ∈ (cell k p).region := by
  have hpos : (0 : ℝ) < 2 ^ k := by positivity
  rw [← cell_zero, mem_region_cell]
  simp only [mem_region_cell, Nat.cast_zero, pow_zero, mul_one, zero_add]
  constructor
  · rintro ⟨⟨hx₀, hx₁⟩, hy₀, hy₁⟩
    have scaled {t : ℝ} (h : t ≤ 1) : t * 2 ^ k ≤ ((2 ^ k : Nat) : ℝ) := by
      push_cast
      nlinarith
    obtain ⟨i, hi, hx⟩ := exists_interval (n := 2 ^ k) (by positivity)
      (mul_nonneg hx₀ hpos.le) (scaled hx₁)
    obtain ⟨j, hj, hy⟩ := exists_interval (n := 2 ^ k) (by positivity)
      (mul_nonneg hy₀ hpos.le) (scaled hy₁)
    exact ⟨⟨i, j⟩, Grid.mem_points.mpr ⟨hi, hj⟩, hx, hy⟩
  · rintro ⟨p, hp, hx, hy⟩
    obtain ⟨hpx, hpy⟩ := Grid.mem_points.mp hp
    have lower {i : Nat} {t : ℝ} (h : (i : ℝ) ≤ t * 2 ^ k) : 0 ≤ t := by
      have : (0 : ℝ) ≤ i := by positivity
      nlinarith
    have upper {i : Nat} {t : ℝ} (hi : i < 2 ^ k) (h : t * 2 ^ k ≤ i + 1) : t ≤ 1 := by
      have : (i : ℝ) + 1 ≤ 2 ^ k := by exact_mod_cast hi
      nlinarith
    exact ⟨⟨lower hx.1, upper hpx hx.2⟩, lower hy.1, upper hpy hy.2⟩

/-- **Two cells have no point inside both.** -/
theorem disjoint_interior_cells {k : Nat} {p q : GridPoint} (h : p ≠ q) :
    Disjoint (interior (cell k p).region) (interior (cell k q).region) := by
  have same {i j : Nat} {t : ℝ} (hi : (i : ℝ) < t ∧ t < i + 1) (hj : (j : ℝ) < t ∧ t < j + 1) :
      i = j := by
    have hij : (i : ℝ) < j + 1 := hi.1.trans hj.2
    have hji : (j : ℝ) < i + 1 := hj.1.trans hi.2
    norm_cast at hij hji
    omega
  rw [Set.disjoint_left]
  intro z hp hq
  obtain ⟨hpx, hpy⟩ := mem_interior_cell.mp hp
  obtain ⟨hqx, hqy⟩ := mem_interior_cell.mp hq
  apply h
  cases p
  cases q
  rw [GridPoint.mk.injEq]
  exact ⟨same hpx hqx, same hpy hqy⟩

/-! ## all rectangles on a level -/

/-- **The rectangles on a level cover the unit square.** -/
theorem mem_region_unit_iff (k : Nat) {z : ℝ × ℝ} :
    z ∈ (unit : TexRect ℚ).region ↔ ∃ r ∈ cells k (unit : TexRect ℚ), z ∈ r.region := by
  simp only [mem_region_unit (k := k), mem_cells_unit, List.mem_map, exists_exists_and_eq_and]

/-- **Two rectangles on a level have no point inside both.** -/
theorem pairwise_cells (k : Nat) : (cells k (unit : TexRect ℚ)).Pairwise fun r r' =>
    Disjoint (interior r.region) (interior r'.region) := by
  refine (nodup_cells k).pairwise_of_forall_ne ?_
  intro r hr r' hr' hne
  obtain ⟨p, -, rfl⟩ := List.mem_map.mp (mem_cells_unit.mp hr)
  obtain ⟨q, -, rfl⟩ := List.mem_map.mp (mem_cells_unit.mp hr')
  exact disjoint_interior_cells fun h => hne (congrArg _ h)

end TexRect

end TerrainPatches
