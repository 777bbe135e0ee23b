import TerrainPatches.Proofs.Plan
import TerrainPatches.Proofs.Quadtree.Cells

/-!
# Baked detail lies where the patch shows it

A tile draws its layers over a quad and its grid over them (`Square.quad`, `Square.bakedGrid`;
`Plan.detailed_of_tile` says that these are what a tile draws).  Here they are compared over exact
numbers with the patch that the tile is a part of.

A leaf is in its place (`InPlace`): its square has the place in the patch that its rectangle has in
the texture, where `y` runs the other way.  So a vertex of the tile's grid is baked at the texture
coordinate that the patch has at the same point of the world, the quad shows the texture coordinate
of the vertex there, and the leaves cover the patch as their rectangles cover the texture
(`baked_in_place`).
-/

namespace TerrainPatches

/-! ## what a tile draws -/

/-- layers over the quad of the tile's square, and over them a grid with `n` vertices along an edge
in the colors of the tile -/
def Tile.Detailed (n : Nat) (t : Tile) : Prop :=
  ∃ (passes : List Pass) (grid : Shared TileGrid) (colors : VertexArray Rgba8),
    t.draws = passes.map (Draw.layer t.square.quad) ++ [.detail grid colors .multiply] ∧
      grid.val.positions.elements = t.square.bakedGrid n ∧ grid.val.uvs.val = .build n ∧
      grid.val.indices.val = .build n .none

/-- a tile draws its layers over its quad, and over them a grid of the resolution of its square -/
theorem Plan.detailed_of_tile {site : Site} {s : Square Float32} {t : Tile}
    (h : Plan.tile site s = .ok t) :
    t.square = s ∧ ∃ n, resolution site.cellVertices s.size 0 = .ok n ∧ t.Detailed n := by
  obtain ⟨g, hg, h⟩ := Fault.bind_eq_ok.mp h
  obtain ⟨colors, -, h⟩ := Fault.bind_eq_ok.mp h
  obtain ⟨n, hn, hg⟩ := Fault.bind_eq_ok.mp hg
  cases hg
  cases h
  exact ⟨rfl, n, hn, _, _, _, rfl, rfl, rfl, rfl⟩

/-! ## what a quad shows -/

/-- each three, one after the other -/
def eachThree {β : Type} : List β → List (β × β × β)
  | a :: b :: c :: rest => (a, b, c) :: eachThree rest
  | _ => []

namespace Quad

/-- the corners of the triangles, each a position with its texture coordinate -/
def corners {α : Type} (q : Quad α) :
    List ((Point3 α × Point2 α) × (Point3 α × Point2 α) × (Point3 α × Point2 α)) :=
  eachThree (q.indices.filterMap fun i => (q.positions.zip q.texCoords)[i.toNat]?)

/-- a triangle of the quad has the point `z` between its corners, and `uv` in the same way between
the texture coordinates of its corners -/
def Shows (q : Quad ℚ) (z uv : Point2 ℚ) : Prop :=
  ∃ v₀ v₁ v₂, (v₀, v₁, v₂) ∈ q.corners ∧ ∃ a b c : ℚ, 0 ≤ a ∧ 0 ≤ b ∧ 0 ≤ c ∧ a + b + c = 1 ∧
    z = ⟨a * v₀.1.x + b * v₁.1.x + c * v₂.1.x, a * v₀.1.y + b * v₁.1.y + c * v₂.1.y⟩ ∧
    uv = ⟨a * v₀.2.x + b * v₁.2.x + c * v₂.2.x, a * v₀.2.y + b * v₁.2.y + c * v₂.2.y⟩

/-- an upright quad is cut along the diagonal from its upper left to its lower right corner -/
theorem corners_upright (c e : Point2 ℚ) : (upright c e).corners =
    [((⟨c.x, c.y + e.y, 0⟩, ⟨0, 1⟩), (⟨c.x, c.y, 0⟩, ⟨0, 0⟩), (⟨c.x + e.x, c.y, 0⟩, ⟨1, 0⟩)),
      ((⟨c.x + e.x, c.y, 0⟩, ⟨1, 0⟩), (⟨c.x + e.x, c.y + e.y, 0⟩, ⟨1, 1⟩),
        (⟨c.x, c.y + e.y, 0⟩, ⟨0, 1⟩))] := by
  have upperLeft : (c + ⟨0, e.y⟩ : Point2 ℚ) = ⟨c.x, c.y + e.y⟩ :=
    congrArg (fun x => (⟨x, c.y + e.y⟩ : Point2 ℚ)) (add_zero c.x)
  have lowerRight : (c + ⟨e.x, 0⟩ : Point2 ℚ) = ⟨c.x + e.x, c.y⟩ :=
    congrArg (fun y => (⟨c.x + e.x, y⟩ : Point2 ℚ)) (add_zero c.y)
  have upperRight : (⟨c.x + e.x, c.y⟩ + ⟨0, e.y⟩ : Point2 ℚ) = ⟨c.x + e.x, c.y + e.y⟩ :=
    congrArg (fun x => (⟨x, c.y + e.y⟩ : Point2 ℚ)) (add_zero (c.x + e.x))
  unfold corners upright spanned
  rw [Scalar.zero_rat, Scalar.one_rat, upperLeft, lowerRight, upperRight]
  rfl

/-- **An upright quad shows at each of its points the coordinate that divides the texture like the
point divides the quad, and no other.** -/
theorem shows_upright {c e uv : Point2 ℚ} {u v : ℚ} (hx : 0 < e.x) (hy : 0 < e.y)
    (hu : 0 ≤ u ∧ u ≤ 1) (hv : 0 ≤ v ∧ v ≤ 1) :
    (upright c e).Shows ⟨c.x + u * e.x, c.y + v * e.y⟩ uv ↔ uv = ⟨u, v⟩ := by
  constructor
  · rintro ⟨v₀, v₁, v₂, hmem, a, b, d, -, -, -, hsum, hz, rfl⟩
    rw [corners_upright, List.mem_cons, List.mem_singleton] at hmem
    cases hmem with
    | inl h =>
      cases h
      obtain rfl : b = 1 - a - d := by linarith
      obtain ⟨hzx, hzy⟩ := Point2.mk.injEq _ _ _ _ ▸ hz
      obtain rfl : u = d := mul_right_cancel₀ hx.ne' (by linarith)
      obtain rfl : v = a := mul_right_cancel₀ hy.ne' (by linarith)
      simp
    | inr h =>
      cases h
      obtain rfl : b = 1 - a - d := by linarith
      obtain ⟨hzx, hzy⟩ := Point2.mk.injEq _ _ _ _ ▸ hz
      obtain rfl : u = 1 - d := mul_right_cancel₀ hx.ne' (by linarith)
      obtain rfl : v = 1 - a := mul_right_cancel₀ hy.ne' (by linarith)
      simp
      ring
  · rintro rfl
    -- the two triangles meet where the coordinates sum to one
    by_cases h : u + v ≤ 1
    · refine ⟨_, _, _, by rw [corners_upright]; exact List.mem_cons_self, v, 1 - u - v, u,
        hv.1, by linarith, hu.1, by ring, ?_, ?_⟩ <;> rw [Point2.mk.injEq] <;>
        constructor <;> ring
    · refine ⟨_, _, _, by rw [corners_upright]; exact List.mem_cons_of_mem _ List.mem_cons_self,
        1 - v, u + v - 1, 1 - u, by linarith, by linarith, by linarith, by ring, ?_, ?_⟩ <;>
        rw [Point2.mk.injEq] <;> constructor <;> ring

end Quad

/-! ## leaves in their places -/

/-- a quarter of a rectangle lies in its direction from the middle, and in `y` against it -/
theorem TexRect.middle_of_mem_quadrants {r : TexRect ℚ} {q : Point2 ℚ × TexRect ℚ}
    (h : q ∈ r.quadrants) :
    q.2.minimum.x + q.2.shape.x / 2 = r.minimum.x + r.shape.x / 2 + q.1.x * (r.shape.x / 4) ∧
      q.2.minimum.y + q.2.shape.y / 2
        = r.minimum.y + r.shape.y / 2 - q.1.y * (r.shape.y / 4) := by
  have near (a b : ℚ) : a + b / 2 / 2 = a + b / 2 + -1 * (b / 4) := by ring
  have far (a b : ℚ) : a + b / 2 + b / 2 / 2 = a + b / 2 + 1 * (b / 4) := by ring
  rw [quadrants, Scalar.two_rat, Scalar.one_rat] at h
  simp only [List.mem_cons, List.not_mem_nil, or_false] at h
  rcases h with rfl | rfl | rfl | rfl
  · exact ⟨far _ _, (near _ _).trans (by ring)⟩
  · exact ⟨near _ _, (near _ _).trans (by ring)⟩
  · exact ⟨far _ _, (far _ _).trans (by ring)⟩
  · exact ⟨near _ _, (far _ _).trans (by ring)⟩

/-- the square has the place in the patch that its rectangle has in the texture -/
structure InPlace (size : ℚ) (center : Point2 ℚ) (s : Square ℚ) : Prop where
  even : s.Even
  pos : 0 < s.rect.shape.x
  scaled : s.size = size * s.rect.shape.x
  x : s.center.x = center.x + size * (s.rect.minimum.x + s.rect.shape.x / 2 - 1 / 2)
  y : s.center.y = center.y + size * (1 / 2 - s.rect.minimum.y - s.rect.shape.x / 2)

section
variable {size : ℚ} {center : Point2 ℚ} {s q : Square ℚ}

theorem inPlace_whole : InPlace size center (.whole size center) := by
  have minimum : (TexRect.unit : TexRect ℚ).minimum = ⟨0, 0⟩ := by
    show (⟨Scalar.zero, Scalar.zero⟩ : Point2 ℚ) = _
    rw [Scalar.zero_rat]
  have shape : (TexRect.unit : TexRect ℚ).shape = ⟨1, 1⟩ := by
    show (⟨Scalar.one, Scalar.one⟩ : Point2 ℚ) = _
    rw [Scalar.one_rat]
  refine ⟨rfl, ?_, ?_, ?_, ?_⟩ <;> simp only [Square.whole, minimum, shape] <;> norm_num

theorem InPlace.quarter (h : InPlace size center s) (hq : q ∈ s.quarters) :
    InPlace size center q := by
  have even := h.even.quarter hq
  obtain ⟨⟨direction, r⟩, hr, rfl⟩ := List.mem_map.mp hq
  have shape : r.shape.x = s.rect.shape.x / 2 := by
    rw [s.rect.shape_of_mem_quadrants _ hr, Point2.dividedBy_x, Scalar.two_rat]
  have hpos : 0 < r.shape.x := by
    rw [shape]
    exact half_pos h.pos
  have hscaled : s.size / Scalar.two = size * r.shape.x := by
    rw [shape, Scalar.two_rat, h.scaled]
    ring
  have quarter : s.size / Scalar.four = size * (s.rect.shape.x / 4) := by
    rw [Scalar.four_rat, h.scaled]
    ring
  obtain ⟨hx, hy⟩ := TexRect.middle_of_mem_quadrants hr
  rw [← h.even] at hy
  refine ⟨even, hpos, hscaled, ?_, ?_⟩
  · show s.center.x + direction.x * (s.size / Scalar.four) = _
    rw [h.x, quarter]
    linear_combination (-size) * hx
  · show s.center.y + direction.y * (s.size / Scalar.four) = _
    rw [h.y, quarter]
    have e : r.shape.x = r.shape.y := even
    rw [← e] at hy
    linear_combination size * hy

theorem inPlace_of_leaves {log2 : ℚ → ℚ} {maxSize : ℚ} {leaves : List (Square ℚ)}
    (h : Quadtree.leaves log2 size center maxSize = .ok leaves) :
    ∀ s ∈ leaves, InPlace size center s :=
  Quadtree.leaf_of_leaves (fun _ hs _ hq => hs.quarter hq) inPlace_whole h

/-! ## points of the world -/

/-- the point of the world at a vertex of a grid over the square -/
def Square.worldPoint (n : Nat) (s : Square ℚ) (p : GridPoint) : Point2 ℚ :=
  ⟨s.center.x + s.size * (p.x / (n - 1) - 1 / 2), s.center.y + s.size * (p.y / (n - 1) - 1 / 2)⟩

/-- the texture coordinate that a patch has at a point of the world -/
def patchUv (size : ℚ) (center w : Point2 ℚ) : Point2 ℚ :=
  ⟨(w.x - center.x) / size + 1 / 2, 1 / 2 - (w.y - center.y) / size⟩

/-- the point of the texture at a point of the device -/
def texturePoint (b : Point3 ℚ) : Point2 ℚ := ⟨(b.x + 1) / 2, (b.y + 1) / 2⟩

theorem span_eq {n : Nat} (hn : 2 ≤ n) : (Grid.span n : ℚ) = n - 1 := by
  show ((max n 2 - 1 : Nat) : ℚ) = n - 1
  rw [max_eq_left hn, Nat.cast_sub (by omega), Nat.cast_one]

/-- the texture coordinates of a patch run with its vertices -/
theorem uv_eq {n : Nat} (hn : 2 ≤ n) {p : GridPoint} (hp : p ∈ Grid.points n) :
    (Grid.uv n p : Point2 ℚ) = ⟨p.x / (n - 1), 1 - p.y / (n - 1)⟩ := by
  have hy : p.y ≤ n - 1 := Nat.le_sub_one_of_lt (Grid.mem_points.mp hp).2
  have hpos : (n : ℚ) - 1 ≠ 0 := by
    have : (2 : ℚ) ≤ n := by exact_mod_cast hn
    linarith
  have hv : ((n - 1 - p.y : Nat) : ℚ) / (n - 1) = 1 - p.y / (n - 1) := by
    rw [Nat.cast_sub hy, Nat.cast_sub (by omega), Nat.cast_one, sub_div, div_self hpos]
  show (⟨(p.x : ℚ) / Grid.span n, ((n - 1 - p.y : Nat) : ℚ) / Grid.span n⟩ : Point2 ℚ) = _
  rw [span_eq hn, hv]

theorem patchUv_worldPoint {n : Nat} (hn : 2 ≤ n) {p : GridPoint} (hp : p ∈ Grid.points n)
    (hsize : size ≠ 0) :
    patchUv size center ((Square.whole size center).worldPoint n p) = Grid.uv n p := by
  rw [uv_eq hn hp]
  simp only [patchUv, Square.worldPoint, Square.whole, add_sub_cancel_left,
    mul_div_cancel_left₀ _ hsize]
  rw [Point2.mk.injEq]
  constructor <;> ring

/-- a vertex of the tile's grid in the device -/
theorem flatAt_frame {n : Nat} (hn : 2 ≤ n) (r : TexRect ℚ) (p : GridPoint) :
    Grid.flatAt n r.frame.center r.frame.width r.frame.height p
      = ⟨2 * (r.minimum.x + r.shape.x * (p.x / (n - 1))) - 1,
        2 * (r.minimum.y + r.shape.y * (1 - p.y / (n - 1))) - 1, 0⟩ := by
  show (⟨((p.x : ℚ) / Grid.span n - Scalar.half) * (r.shape.x * Scalar.two)
        + (r.minimum.x * Scalar.two - Scalar.one + r.shape.x),
      ((p.y : ℚ) / Grid.span n - Scalar.half) * (-(r.shape.y * Scalar.two))
        + (r.minimum.y * Scalar.two - Scalar.one + r.shape.y), Scalar.zero⟩ : Point3 ℚ) = _
  rw [span_eq hn, Scalar.one_rat, Scalar.two_rat, Scalar.half_rat, Point3.mk.injEq]
  exact ⟨by ring, by ring, Scalar.zero_rat⟩

/-- **A vertex is baked where the patch has its point of the world.** -/
theorem InPlace.texturePoint_eq (h : InPlace size center s) (hsize : size ≠ 0) {n : Nat}
    (hn : 2 ≤ n) (p : GridPoint) :
    texturePoint (Grid.flatAt n s.rect.frame.center s.rect.frame.width s.rect.frame.height p)
      = patchUv size center (s.worldPoint n p) := by
  rw [flatAt_frame hn, texturePoint, patchUv, Square.worldPoint, h.x, h.y, h.scaled, ← h.even,
    Point2.mk.injEq]
  constructor
  · field_simp
    ring
  · field_simp
    ring

/-- **The quad of a tile shows at a vertex of its grid the texture coordinate of the vertex.** -/
theorem InPlace.quad_shows (h : InPlace size center s) {n : Nat} (hn : 2 ≤ n) {p : GridPoint}
    (hp : p ∈ Grid.points n) (uv : Point2 ℚ) :
    s.quad.Shows
      ⟨2 * (s.rect.minimum.x + s.rect.shape.x * (p.x / (n - 1))) - 1,
        2 * (s.rect.minimum.y + s.rect.shape.y * (1 - p.y / (n - 1))) - 1⟩ uv ↔
      uv = Grid.uv n p := by
  have corner : s.rect.frame.corner = ⟨s.rect.minimum.x * 2 - 1, s.rect.minimum.y * 2 - 1⟩ := by
    show (⟨s.rect.minimum.x * Scalar.two - Scalar.one,
      s.rect.minimum.y * Scalar.two - Scalar.one⟩ : Point2 ℚ) = _
    rw [Scalar.one_rat, Scalar.two_rat]
  have extent : s.rect.frame.extent = ⟨s.rect.shape.x * 2, s.rect.shape.y * 2⟩ := by
    show (⟨s.rect.shape.x * Scalar.two, s.rect.shape.y * Scalar.two⟩ : Point2 ℚ) = _
    rw [Scalar.two_rat]
  have hy : 0 < s.rect.shape.y := h.even ▸ h.pos
  obtain ⟨hpx, hpy⟩ := Grid.mem_points.mp hp
  have ratio {i : Nat} (hi : i < n) : 0 ≤ (i : ℚ) / (n - 1) ∧ (i : ℚ) / (n - 1) ≤ 1 := by
    have hle : (i : ℚ) + 1 ≤ n := by exact_mod_cast hi
    have htwo : (2 : ℚ) ≤ n := by exact_mod_cast hn
    exact ⟨div_nonneg (Nat.cast_nonneg i) (by linarith),
      div_le_one_of_le₀ (by linarith) (by linarith)⟩
  have v : 0 ≤ 1 - (p.y : ℚ) / (n - 1) ∧ 1 - (p.y : ℚ) / (n - 1) ≤ 1 := by
    have := ratio hpy
    constructor <;> linarith
  have place : (⟨2 * (s.rect.minimum.x + s.rect.shape.x * (p.x / (n - 1))) - 1,
        2 * (s.rect.minimum.y + s.rect.shape.y * (1 - p.y / (n - 1))) - 1⟩ : Point2 ℚ)
      = ⟨s.rect.frame.corner.x + p.x / (n - 1) * s.rect.frame.extent.x,
        s.rect.frame.corner.y + (1 - p.y / (n - 1)) * s.rect.frame.extent.y⟩ := by
    rw [corner, extent, Point2.mk.injEq]
    constructor <;> ring
  rw [uv_eq hn hp, place]
  exact Quad.shows_upright (by rw [extent]; linarith [h.pos]) (by rw [extent]; linarith)
    (ratio hpx) v

/-! ## squares of the world -/

/-- the points of a square -/
def Square.region (s : Square ℚ) : Set (ℝ × ℝ) :=
  Set.Icc (s.center.x - s.size / 2 : ℝ) (s.center.x + s.size / 2 : ℝ) ×ˢ
    Set.Icc (s.center.y - s.size / 2 : ℝ) (s.center.y + s.size / 2 : ℝ)

/-- the texture coordinate that a patch has at a point, among real numbers -/
noncomputable def textureAt (size : ℚ) (center : Point2 ℚ) (z : ℝ × ℝ) : ℝ × ℝ :=
  ((z.1 - center.x) / size + 1 / 2, 1 / 2 - (z.2 - center.y) / size)

/-- the sides of a square in its place, by those of its rectangle -/
theorem InPlace.sides (h : InPlace size center s) :
    (s.center.x - s.size / 2 : ℝ) = center.x + size * (s.rect.minimum.x - 1 / 2) ∧
    (s.center.x + s.size / 2 : ℝ) = center.x + size * (s.rect.maximum.x - 1 / 2) ∧
    (s.center.y - s.size / 2 : ℝ) = center.y + size * (1 / 2 - s.rect.maximum.y) ∧
    (s.center.y + s.size / 2 : ℝ) = center.y + size * (1 / 2 - s.rect.minimum.y) := by
  have maximumX : s.rect.maximum.x = s.rect.minimum.x + s.rect.shape.x := rfl
  have maximumY : s.rect.maximum.y = s.rect.minimum.y + s.rect.shape.x := by
    rw [show s.rect.shape.x = s.rect.shape.y from h.even]
    rfl
  rw [maximumX, maximumY, h.x, h.y, h.scaled]
  push_cast
  refine ⟨?_, ?_, ?_, ?_⟩ <;> ring

/-- a point by the texture coordinate that the patch has there -/
theorem exists_textureAt (hsize : 0 < size) (center : Point2 ℚ) (z : ℝ × ℝ) : ∃ u v : ℝ,
    z = (center.x + size * u, center.y + size * v) ∧
      textureAt size center z = (u + 1 / 2, 1 / 2 - v) := by
  have hne : (size : ℝ) ≠ 0 := by exact_mod_cast hsize.ne'
  refine ⟨(z.1 - center.x) / size, (z.2 - center.y) / size, ?_, rfl⟩
  rw [mul_div_cancel₀ _ hne, mul_div_cancel₀ _ hne, add_sub_cancel, add_sub_cancel]

/-- **A point is in a square in its place if and only if its texture coordinate is in the
rectangle.** -/
theorem InPlace.mem_region (h : InPlace size center s) (hsize : 0 < size) {z : ℝ × ℝ} :
    z ∈ s.region ↔ textureAt size center z ∈ s.rect.region := by
  have hreal : (0 : ℝ) < size := by exact_mod_cast hsize
  obtain ⟨left, right, lower, upper⟩ := h.sides
  obtain ⟨u, v, rfl, huv⟩ := exists_textureAt hsize center z
  rw [huv, Square.region, TexRect.region, left, right, lower, upper]
  simp only [Set.mem_prod, Set.mem_Icc, add_le_add_iff_left, mul_le_mul_iff_right₀ hreal]
  rw [sub_le_iff_le_add, le_sub_iff_add_le, sub_le_comm, le_sub_comm]
  exact and_congr_right fun _ => and_comm

theorem InPlace.mem_interior (h : InPlace size center s) (hsize : 0 < size) {z : ℝ × ℝ} :
    z ∈ interior s.region ↔ textureAt size center z ∈ interior s.rect.region := by
  have hreal : (0 : ℝ) < size := by exact_mod_cast hsize
  obtain ⟨left, right, lower, upper⟩ := h.sides
  obtain ⟨u, v, rfl, huv⟩ := exists_textureAt hsize center z
  rw [huv, TexRect.interior_region, Square.region, interior_prod_eq, interior_Icc, interior_Icc,
    left, right, lower, upper]
  simp only [Set.mem_prod, Set.mem_Ioo, add_lt_add_iff_left, mul_lt_mul_iff_right₀ hreal]
  rw [sub_lt_iff_lt_add, lt_sub_iff_add_lt, sub_lt_comm, lt_sub_comm]
  exact and_congr_right fun _ => and_comm

/-- the leaves cover the patch and lie side by side -/
theorem squares_of_leaves {log2 : ℚ → ℚ} {maxSize : ℚ} {leaves : List (Square ℚ)}
    (hsize : 0 < size) (h : Quadtree.leaves log2 size center maxSize = .ok leaves) :
    (∀ z, z ∈ (Square.whole size center).region ↔ ∃ s ∈ leaves, z ∈ s.region) ∧
      leaves.Pairwise fun s s' => Disjoint (interior s.region) (interior s'.region) := by
  have inPlace := inPlace_of_leaves h
  obtain ⟨k, -, rfl⟩ := Quadtree.level_of_leaves h
  have rects := Quadtree.map_rect_quarterings k (Square.whole size center)
  constructor
  · intro z
    rw [inPlace_whole.mem_region hsize]
    show textureAt size center z ∈ (TexRect.unit : TexRect ℚ).region ↔ _
    rw [TexRect.mem_region_unit_iff k]
    show (∃ r ∈ (Square.whole size center).rect.cells k, _) ↔ _
    rw [← rects]
    simp only [List.mem_map, exists_exists_and_eq_and]
    exact exists_congr fun s => and_congr_right fun hs =>
      ((inPlace s hs).mem_region hsize).symm
  · have apart := TexRect.pairwise_cells k
    rw [show (TexRect.unit : TexRect ℚ) = (Square.whole size center).rect from rfl, ← rects,
      List.pairwise_map] at apart
    refine List.Pairwise.imp_of_mem ?_ apart
    intro s s' hs hs' hdisjoint
    rw [Set.disjoint_left] at hdisjoint ⊢
    intro z hz hz'
    exact hdisjoint (((inPlace s hs).mem_interior hsize).mp hz)
      (((inPlace s' hs').mem_interior hsize).mp hz')

/-- **Baked detail lies where the patch shows it.**  Over exact numbers, take a patch of positive
size, its leaves, and a grid of at least two vertices along an edge.  A vertex of the grid of a leaf
is baked at the texture coordinate that the patch has at the vertex's point of the world, and the
layers of the leaf show there exactly the texture coordinate of the vertex.  The texture coordinates
of the patch are those of its own vertices.  The squares of the leaves cover the patch and lie side
by side.  The grid and the quad of a leaf are those of the tile that is made for it
(`Plan.detailed_of_tile`). -/
theorem baked_in_place {log2 : ℚ → ℚ} {maxSize : ℚ} {leaves : List (Square ℚ)}
    (hsize : 0 < size) (h : Quadtree.leaves log2 size center maxSize = .ok leaves) :
    (∀ s ∈ leaves, ∀ n, 2 ≤ n → ∀ p ∈ Grid.points n, ∃ b uv,
      (s.bakedGrid n)[p.x * n + p.y]? = some b ∧ (Grid.uvs n)[p.x * n + p.y]? = some uv ∧
      texturePoint b = patchUv size center (s.worldPoint n p) ∧
      ∀ uv', s.quad.Shows ⟨b.x, b.y⟩ uv' ↔ uv' = uv) ∧
    (∀ n, 2 ≤ n → ∀ p ∈ Grid.points n, (Grid.uvs n)[p.x * n + p.y]?
      = some (patchUv size center ((Square.whole size center).worldPoint n p))) ∧
    (∀ z, z ∈ (Square.whole size center).region ↔ ∃ s ∈ leaves, z ∈ s.region) ∧
    leaves.Pairwise fun s s' => Disjoint (interior s.region) (interior s'.region) := by
  have listed {β : Type} (f : GridPoint → β) {n : Nat} {p : GridPoint} (hp : p ∈ Grid.points n) :
      ((Grid.points n).map f)[p.x * n + p.y]? = some (f p) := by
    obtain ⟨hx, hy⟩ := Grid.mem_points.mp hp
    rw [List.getElem?_map, Grid.points_getElem? hx hy]
    rfl
  refine ⟨?_, ?_, squares_of_leaves hsize h⟩
  · intro s hs n hn p hp
    have inPlace := inPlace_of_leaves h s hs
    refine ⟨_, _, listed _ hp, listed _ hp, inPlace.texturePoint_eq hsize.ne' hn p, ?_⟩
    intro uv'
    rw [flatAt_frame hn]
    exact inPlace.quad_shows hn hp uv'
  · intro n hn p hp
    rw [patchUv_worldPoint hn hp hsize.ne']
    exact listed _ hp

/-- a patch of three cells, with leaves of at most one -/
theorem baked_in_place_three : (0 : ℚ) < 3 ∧
    ∃ leaves, Quadtree.leaves (fun r => (Nat.clog 2 ⌈r⌉₊ : ℚ)) 3 ⟨1, 5⟩ 1 = .ok leaves ∧
      leaves.length = 16 ∧
      (∀ s ∈ leaves, ∃ b uv, (s.bakedGrid 3)[1 * 3 + 2]? = some b ∧
        (Grid.uvs 3)[1 * 3 + 2]? = some uv ∧
        texturePoint b = patchUv 3 ⟨1, 5⟩ (s.worldPoint 3 ⟨1, 2⟩) ∧
        ∀ uv', s.quad.Shows ⟨b.x, b.y⟩ uv' ↔ uv' = uv) ∧
      ∀ z, z ∈ (Square.whole (3 : ℚ) ⟨1, 5⟩).region ↔ ∃ s ∈ leaves, z ∈ s.region := by
  have settles : Settles (1 : ℚ) 3 2 := by
    refine ⟨show ¬ (1 : ℚ) < 3 / 2 / 2 by decide +kernel, ?_⟩
    intro j hj
    by_contra hlt
    interval_cases j
    · exact hj (show (1 : ℚ) < 3 by decide)
    · exact hj (show (1 : ℚ) < 3 / 2 by decide +kernel)
  have limit : Quadtree.depthLimit (fun r => (Nat.clog 2 ⌈r⌉₊ : ℚ)) (3 / 1) = .ok 3 := by
    decide +kernel
  have h : Quadtree.leaves (fun r => (Nat.clog 2 ⌈r⌉₊ : ℚ)) 3 ⟨1, 5⟩ 1 = .ok _ :=
    Quadtree.leaves_eq_ok_iff.mpr ⟨by decide, rfl, 3, limit, 2, by omega, settles, rfl⟩
  obtain ⟨baked, -, cover, -⟩ := baked_in_place (by norm_num) h
  exact ⟨by norm_num, _, h, Quadtree.length_quarterings 2 _,
    fun s hs => baked s hs 3 (by omega) ⟨1, 2⟩ (by decide), cover⟩

end

end TerrainPatches
