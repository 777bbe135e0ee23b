import TerrainPatches.Proofs.Quadtree.Cells
import TerrainPatches.Proofs.Quadtree.Depth

/-!
# The leaves partition the texture

Up to level twenty-four the corners of all rectangles can be written with twenty-four bits, so
nothing is rounded when a rectangle is quartered (`quadrants_holds`), and the rectangles in single
precision are the cells of the unit square (`cells_holds`).  With what is known of the cells,
the rectangles of the leaves of a patch partition the texture (`rects_of_split`).
-/

namespace TerrainPatches

namespace TexRect

/-- `r` is finite and stands for `c` -/
structure Holds (r : TexRect Float32) (c : TexRect ℚ) : Prop where
  x : TerrainPatches.Holds r.minimum.x c.minimum.x
  y : TerrainPatches.Holds r.minimum.y c.minimum.y
  width : TerrainPatches.Holds r.shape.x c.shape.x
  height : TerrainPatches.Holds r.shape.y c.shape.y

end TexRect

/-! ## numbers on the grid -/

/-- a number on a grid that is not too far out can be written and is not too large -/
theorem writable_of_eq_div {q : ℚ} {i k : Nat} (h : q = i / 2 ^ k) (h24 : i ≤ 2 ^ 24)
    (hk : k ≤ 149) : Writable q ∧ q < ceiling := by
  have written := writable_of_le h24 (show (-149 : ℤ) ≤ -k by omega)
  rw [amount, zpow_neg, zpow_natCast, ← div_eq_mul_inv, ← h] at written
  have hle : q ≤ 2 ^ 24 := by
    rw [h]
    refine (div_le_self (by positivity) ?_).trans (by exact_mod_cast h24)
    exact one_le_pow₀ one_le_two
  exact ⟨written, hle.trans_lt (by unfold ceiling; norm_num)⟩

section
variable {a b : Float32} {k : Nat}

/-- half the width of a cell -/
theorem Holds.width (h : Holds a (1 / 2 ^ k)) (hk : k < 24) :
    Holds (a / Scalar.two) (1 / 2 ^ k / Scalar.two) := by
  have half : (1 / 2 ^ k : ℚ) / 2 = (1 : Nat) / 2 ^ (k + 1) := by
    rw [pow_succ, Nat.cast_one, div_div]
  obtain ⟨hw, hlt⟩ := writable_of_eq_div half (by norm_num) (by omega)
  rw [Scalar.two_rat]
  exact h.div_exact holds_two two_pos hw hlt

/-- the middle of a cell -/
theorem Holds.middle {i : Nat} (hi : i < 2 ^ k) (hk : k < 24) (ha : Holds a (i / 2 ^ k))
    (hb : Holds b (1 / 2 ^ k / Scalar.two)) :
    Holds (a + b) (i / 2 ^ k + 1 / 2 ^ k / Scalar.two) := by
  have sum : (i / 2 ^ k : ℚ) + 1 / 2 ^ k / Scalar.two = (2 * i + 1 : Nat) / 2 ^ (k + 1) := by
    rw [Scalar.two_rat, pow_succ]
    push_cast
    field_simp
  have hle : 2 * i + 1 ≤ 2 ^ (k + 1) := by
    rw [pow_succ]
    omega
  have h24 : 2 ^ (k + 1) ≤ 2 ^ 24 := Nat.pow_le_pow_right (by norm_num) hk
  obtain ⟨hw, hlt⟩ := writable_of_eq_div sum (hle.trans h24) (by omega)
  exact ha.add hb hw hlt

end

namespace TexRect

theorem quadrants_holds {r : TexRect Float32} {k : Nat} {p : GridPoint} (h : r.Holds (cell k p))
    (hp : p ∈ Grid.points (2 ^ k)) (hk : k < 24) :
    List.Forall₂ (fun q q' => q.2.Holds q'.2) r.quadrants (cell k p).quadrants := by
  obtain ⟨hx, hy⟩ := Grid.mem_points.mp hp
  have width := h.width.width hk
  have height := h.height.width hk
  have middleX := h.x.middle hx hk width
  have middleY := h.y.middle hy hk height
  exact .cons ⟨middleX, h.y, width, height⟩ (.cons ⟨h.x, h.y, width, height⟩
    (.cons ⟨middleX, middleY, width, height⟩ (.cons ⟨h.x, middleY, width, height⟩ .nil)))

/-- **Nothing is rounded.** -/
theorem cells_holds {r : TexRect Float32} {k d : Nat} {p : GridPoint} (h : r.Holds (cell d p))
    (hp : p ∈ Grid.points (2 ^ d)) (hk : d + k ≤ 24) :
    List.Forall₂ Holds (cells k r) (cells k (cell d p)) := by
  induction k generalizing d p r with
  | zero => exact .cons h .nil
  | succ k ih =>
    have places : ∀ q ∈ (cell d p).quadrants, ∃ p' ∈ Grid.points (2 ^ (d + 1)),
        q.2 = cell (d + 1) p' := by
      intro q hq
      obtain ⟨a, ha, b, hb, h⟩ := mem_quadrants_cell.mp ⟨q, hq, rfl⟩
      obtain ⟨hx, hy⟩ := Grid.mem_points.mp hp
      have double {i a : Nat} (hi : i < 2 ^ d) (ha : a < 2) : 2 * i + a < 2 ^ (d + 1) := by
        rw [pow_succ]
        omega
      exact ⟨_, Grid.mem_points.mpr ⟨double hx ha, double hy hb⟩, h⟩
    have quarters := (List.forall₂_and_left _ _).mpr
      ⟨places, (quadrants_holds h hp (by omega)).flip⟩
    refine List.rel_flatMap quarters.flip ?_
    rintro q q' ⟨⟨p', hp', hq'⟩, hq⟩
    show List.Forall₂ Holds (cells k q.2) (cells k q'.2)
    rw [hq'] at hq ⊢
    exact ih hq hp' (by omega)

/-! ## what the rectangles stand for -/

/-- neither infinite nor undefined -/
def IsFinite (r : TexRect Float32) : Prop :=
  r.minimum.x.isFinite = true ∧ r.minimum.y.isFinite = true ∧
    r.shape.x.isFinite = true ∧ r.shape.y.isFinite = true

/-- the rectangle that a finite one stands for -/
def exact (r : TexRect Float32) : TexRect ℚ :=
  ⟨⟨value r.minimum.x, value r.minimum.y⟩, ⟨value r.shape.x, value r.shape.y⟩⟩

section
variable {r r' : TexRect Float32} {c : TexRect ℚ} {k : Nat} {p q : GridPoint}

theorem Holds.isFinite (h : r.Holds c) : r.IsFinite :=
  ⟨h.x.finite, h.y.finite, h.width.finite, h.height.finite⟩

theorem Holds.exact_eq (h : r.Holds c) : r.exact = c := by
  rw [exact, h.x.value, h.y.value, h.width.value, h.height.value]

theorem unit_holds : (unit : TexRect Float32).Holds (cell 0 ⟨0, 0⟩) := by
  rw [cell_zero]
  have zero : TerrainPatches.Holds (Scalar.zero : Float32) (Scalar.zero : ℚ) := by
    rw [Scalar.zero_rat]
    exact holds_zero
  have one : TerrainPatches.Holds (Scalar.one : Float32) (Scalar.one : ℚ) := by
    rw [Scalar.one_rat]
    exact holds_one
  exact ⟨zero, zero, one, one⟩

/-- the rectangles on a level, each with the cell it stands for -/
theorem cells_unit_holds (hk : k ≤ 24) :
    List.Forall₂ Holds (cells k (unit : TexRect Float32)) (cells k (unit : TexRect ℚ)) := by
  rw [← cell_zero]
  exact cells_holds unit_holds (Grid.mem_points.mpr ⟨by norm_num, by norm_num⟩) (by omega)

theorem exact_cells (hk : k ≤ 24) : (cells k (unit : TexRect Float32)).map exact
    = cells k (unit : TexRect ℚ) := by
  have h := (cells_unit_holds hk).imp fun _ _ => Holds.exact_eq
  rwa [← List.forall₂_map_left_iff, List.forall₂_eq_eq_eq] at h

theorem holds_of_mem_cells (hk : k ≤ 24) (h : r ∈ cells k unit) :
    ∃ p ∈ Grid.points (2 ^ k), r.Holds (cell k p) := by
  have holds := (cells_unit_holds hk).imp fun r c hr =>
    And.intro (hr.exact_eq ▸ hr : r.Holds r.exact) hr
  have hexact : r.exact ∈ cells k (unit : TexRect ℚ) := by
    rw [← exact_cells hk]
    exact List.mem_map_of_mem h
  obtain ⟨p, hp, hcell⟩ := List.mem_map.mp (mem_cells_unit.mp hexact)
  refine ⟨p, hp, ?_⟩
  rw [hcell]
  exact ((List.forall₂_and_left _ _).mp holds).1 r h

/-- the far corner is not rounded either -/
theorem Holds.maximum (h : r.Holds (cell k p)) (hp : p ∈ Grid.points (2 ^ k)) (hk : k ≤ 24) :
    TerrainPatches.Holds r.maximum.x ((p.x + 1) / 2 ^ k) ∧
      TerrainPatches.Holds r.maximum.y ((p.y + 1) / 2 ^ k) := by
  have far {a b : Float32} {i : Nat} (hi : i < 2 ^ k) (ha : TerrainPatches.Holds a (i / 2 ^ k))
      (hb : TerrainPatches.Holds b (1 / 2 ^ k)) :
      TerrainPatches.Holds (a + b) ((i + 1) / 2 ^ k) := by
    have h24 : 2 ^ k ≤ 2 ^ 24 := Nat.pow_le_pow_right (by norm_num) hk
    have sum : (i / 2 ^ k + 1 / 2 ^ k : ℚ) = (i + 1 : Nat) / 2 ^ k := by
      rw [Nat.cast_succ, add_div]
    obtain ⟨hw, hlt⟩ := writable_of_eq_div sum (hi.trans_le h24) (by omega)
    rw [add_div]
    exact ha.add hb hw hlt
  obtain ⟨hx, hy⟩ := Grid.mem_points.mp hp
  exact ⟨far hx h.x h.width, far hy h.y h.height⟩

theorem overlaps_eq_false (h : r.Holds (cell k p)) (h' : r'.Holds (cell k q))
    (hp : p ∈ Grid.points (2 ^ k)) (hq : q ∈ Grid.points (2 ^ k)) (hk : k ≤ 24) (hne : p ≠ q) :
    r.overlaps r' = false := by
  have near {a b : Float32} {i j : Nat} (ha : TerrainPatches.Holds a (i / 2 ^ k))
      (hb : TerrainPatches.Holds b ((j + 1) / 2 ^ k)) (hlt : a < b) : i ≤ j := by
    rw [lt_iff ha.finite hb.finite, ha.value, hb.value, div_lt_div_iff_of_pos_right (by positivity)]
      at hlt
    norm_cast at hlt
    omega
  obtain ⟨hx, hy⟩ := h.maximum hp hk
  obtain ⟨hx', hy'⟩ := h'.maximum hq hk
  by_contra hoverlap
  simp only [overlaps, Bool.not_eq_false, Bool.and_eq_true, decide_eq_true_eq] at hoverlap
  obtain ⟨⟨⟨h₁, h₂⟩, h₃⟩, h₄⟩ := hoverlap
  apply hne
  cases p
  cases q
  rw [GridPoint.mk.injEq]
  exact ⟨le_antisymm (near h.x hx' h₁) (near h'.x hx h₂),
    le_antisymm (near h.y hy' h₃) (near h'.y hy h₄)⟩

theorem Holds.area (h : r.Holds (cell k p)) (hk : k ≤ 24) :
    TerrainPatches.Holds r.area (1 / 4 ^ k) := by
  have product : (1 / 2 ^ k * (1 / 2 ^ k) : ℚ) = 1 / 4 ^ k := by
    rw [div_mul_div_comm, one_mul, ← mul_pow]
    norm_num
  have level : (1 / 4 ^ k : ℚ) = (1 : Nat) / 2 ^ (2 * k) := by
    rw [pow_mul, Nat.cast_one]
    norm_num
  obtain ⟨hw, hlt⟩ := writable_of_eq_div (product.trans level) (by norm_num) (by omega)
  rw [← product]
  exact h.width.mul_exact h.height hw hlt

/-- two rectangles on a level stand for different cells -/
theorem pairwise_holds (hk : k ≤ 24) : (cells k (unit : TexRect Float32)).Pairwise fun r r' =>
    ∃ p ∈ Grid.points (2 ^ k), ∃ q ∈ Grid.points (2 ^ k),
      r.Holds (cell k p) ∧ r'.Holds (cell k q) ∧ p ≠ q := by
  have hne : (cells k (unit : TexRect Float32)).Pairwise fun r r' => r.exact ≠ r'.exact := by
    rw [← List.pairwise_map, exact_cells hk]
    exact nodup_cells k
  refine hne.imp_of_mem ?_
  intro r r' hr hr' hne
  obtain ⟨p, hp, h⟩ := holds_of_mem_cells hk hr
  obtain ⟨q, hq, h'⟩ := holds_of_mem_cells hk hr'
  rw [h.exact_eq, h'.exact_eq] at hne
  exact ⟨p, hp, q, hq, h, h', fun hpq => hne (congrArg _ hpq)⟩

/-- no two rectangles on a level overlap -/
theorem pairwise_overlaps (hk : k ≤ 24) :
    (cells k (unit : TexRect Float32)).Pairwise fun r r' => r.overlaps r' = false := by
  refine (pairwise_holds hk).imp ?_
  intro r r' h
  obtain ⟨p, hp, q, hq, hr, hr', hne⟩ := h
  exact overlaps_eq_false hr hr' hp hq hk hne

/-- the areas of the rectangles on a level -/
theorem sum_area (hk : k ≤ 24) :
    ((cells k (unit : TexRect Float32)).map fun r => value r.area).sum = 1 := by
  have area : ∀ r ∈ cells k (unit : TexRect Float32), value r.area = 1 / 4 ^ k := by
    intro r hr
    obtain ⟨p, -, h⟩ := holds_of_mem_cells hk hr
    exact (h.area hk).value
  have hpos : (4 ^ k : ℚ) ≠ 0 := by positivity
  rw [List.map_congr_left area, List.map_const', List.sum_replicate, length_cells, nsmul_eq_mul]
  push_cast
  exact mul_one_div_cancel hpos

end

end TexRect

/-! ## the leaves of a patch -/

/-- **The rectangles of the leaves partition the texture**, unless the patch is quartered more than
twenty-four times: they are the squares of a grid, each once. -/
theorem rects_of_split {size maxSize : Float32} {k : Nat} (hsize : size.isFinite = true)
    (hmax : Scalar.zero < maxSize) (hk : IsLeast {j | halved j size ≤ maxSize} k) (h24 : k ≤ 24)
    (center : Point2 Float32) :
    ∃ leaves, Quadtree.split size center maxSize = .ok leaves ∧
      (∀ s ∈ leaves, s.rect.IsFinite) ∧
      (leaves.map (·.rect.exact)).Perm ((Grid.points (2 ^ k)).map (TexRect.cell k)) ∧
      leaves.Pairwise (fun s s' => s.rect.overlaps s'.rect = false) ∧
      (leaves.map fun s => value s.rect.area).sum = 1 ∧
      ∀ z, z ∈ (TexRect.unit : TexRect ℚ).region ↔ ∃ s ∈ leaves, z ∈ s.rect.exact.region := by
  have settles := (settles_iff hsize hmax).mpr hk
  refine ⟨_, split_of_settles hsize hmax settles h24 center, ?_⟩
  have rects := Quadtree.map_rect_quarterings k (Square.whole size center)
  change _ = TexRect.cells k TexRect.unit at rects
  generalize Quadtree.quarterings k (Square.whole size center) = leaves at rects ⊢
  have exact_rects : leaves.map (·.rect.exact) = TexRect.cells k (TexRect.unit : TexRect ℚ) := by
    rw [← TexRect.exact_cells h24, ← rects, List.map_map]
    rfl
  refine ⟨?_, ?_, ?_, ?_, ?_⟩
  · intro s hs
    have hr : s.rect ∈ TexRect.cells k TexRect.unit := rects ▸ List.mem_map_of_mem hs
    obtain ⟨p, -, h⟩ := TexRect.holds_of_mem_cells h24 hr
    exact h.isFinite
  · rw [exact_rects]
    exact TexRect.cells_perm k
  · have h := TexRect.pairwise_overlaps h24
    rwa [← rects, List.pairwise_map] at h
  · have h := TexRect.sum_area h24
    rwa [← rects, List.map_map] at h
  · intro z
    rw [TexRect.mem_region_unit_iff k, ← exact_rects]
    simp only [List.mem_map, exists_exists_and_eq_and]

/-- a patch of five cells is quartered twice if no leaf may be larger than two -/
theorem rects_of_split_five : ∃ leaves,
    Quadtree.split (Scalar.ofNat 5) ⟨Scalar.zero, Scalar.zero⟩ Scalar.two = .ok leaves ∧
      (∀ s ∈ leaves, s.rect.IsFinite) ∧
      (leaves.map (·.rect.exact)).Perm ((Grid.points (2 ^ 2)).map (TexRect.cell 2)) ∧
      leaves.Pairwise (fun s s' => s.rect.overlaps s'.rect = false) ∧
      (leaves.map fun s => value s.rect.area).sum = 1 ∧
      ∀ z, z ∈ (TexRect.unit : TexRect ℚ).region ↔ ∃ s ∈ leaves, z ∈ s.rect.exact.region := by
  have depth : IsLeast {j | halved j (Scalar.ofNat 5 : Float32) ≤ Scalar.two} 2 := by
    refine ⟨by decide +kernel, fun j hj => ?_⟩
    have none : ∀ j < 2, ¬ halved j (Scalar.ofNat 5 : Float32) ≤ Scalar.two := by decide +kernel
    exact not_lt.mp fun h => none j h hj
  exact rects_of_split (by decide +kernel) (by decide +kernel) depth (by norm_num) _

end TerrainPatches
