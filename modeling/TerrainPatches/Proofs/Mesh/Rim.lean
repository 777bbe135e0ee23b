import TerrainPatches.Proofs.Mesh.Flow

/-!
# The rim of a square

The square with corners `(0, 0)` and `(last, last)` is bordered by four sides; along each of them
the rim runs in segments of `s side` intervals, counterclockwise.

* `mem_rim`          the segments of the rim are those between neighbouring multiples of the stride;
* `rim_left`         the whole square lies to the left of each of them;
* `flow_rim_inside`  a ray from a point of the open square crosses the rim once;
* `flow_rim_le`      and no ray crosses it more often.
-/

namespace TerrainPatches

/-! ## sides of a square -/

namespace Side

/-- the point of a side at coordinate `j` -/
def point (last : Nat) : Side → Nat → GridPoint
  | .south, j => ⟨j, 0⟩
  | .north, j => ⟨j, last⟩
  | .west, j => ⟨0, j⟩
  | .east, j => ⟨last, j⟩

/-- the coordinate of a grid point along a side -/
def along : Side → GridPoint → Nat
  | .south, p => p.x
  | .north, p => p.x
  | .west, p => p.y
  | .east, p => p.y

/-- whether a grid point of the square lies on a side -/
def On (last : Nat) : Side → GridPoint → Prop
  | .south, p => p.y = 0
  | .north, p => p.y = last
  | .west, p => p.x = 0
  | .east, p => p.x = last

/-- the segment of `s` intervals from coordinate `j` on, counterclockwise -/
def edge (last s : Nat) (side : Side) (j : Nat) : GridPoint × GridPoint :=
  match side with
  | .south | .east => (side.point last j, side.point last (j + s))
  | .north | .west => (side.point last (j + s), side.point last j)

/-- `1` where growing coordinates run counterclockwise, `-1` where clockwise -/
def way : Side → ℤ
  | .south | .east => 1
  | .north | .west => -1

/-- the distance of a grid point of the square from a side -/
def inward (last : Nat) : Side → GridPoint → ℤ
  | .south, r => r.y
  | .north, r => last - r.y
  | .west, r => r.x
  | .east, r => last - r.x

theorem mem_all (side : Side) : side ∈ all := by
  cases side <;> simp [all]

theorem on_point (last : Nat) (side : Side) (j : Nat) : side.On last (side.point last j) := by
  cases side <;> rfl

theorem along_point (last : Nat) (side : Side) (j : Nat) : side.along (side.point last j) = j := by
  cases side <;> rfl

theorem eq_point {last : Nat} {side : Side} {p : GridPoint} (h : side.On last p) :
    p = side.point last (side.along p) := by
  cases p
  cases side <;> cases h <;> rfl

theorem sym_edge (last s : Nat) (side : Side) (j : Nat) :
    s((side.edge last s j).1, (side.edge last s j).2)
      = s(side.point last j, side.point last (j + s)) := by
  cases side
  · exact Sym2.eq_swap
  · rfl
  · rfl
  · exact Sym2.eq_swap

theorem on_of_edge {last s : Nat} {side : Side} {j : Nat} {p q : GridPoint}
    (h : side.edge last s j = (p, q)) : side.On last p ∧ side.On last q := by
  cases side <;> cases h <;> exact ⟨rfl, rfl⟩

theorem way_of_edge {last s : Nat} {side : Side} {j : Nat} {p q : GridPoint}
    (h : side.edge last s j = (p, q)) :
    side.way * ((side.along q : ℤ) - side.along p) = s := by
  cases side <;> cases h <;> simp only [way, along, point] <;> push_cast <;> ring

theorem inward_nonneg {last : Nat} (side : Side) {r : GridPoint} (hx : r.x ≤ last)
    (hy : r.y ≤ last) : 0 ≤ side.inward last r := by
  cases side <;> simp only [inward] <;> omega

/-- seen from a side, a point turns by its distance -/
theorem turn_on {last : Nat} {side : Side} {p q : GridPoint} (hp : side.On last p)
    (hq : side.On last q) (r : GridPoint) :
    GridPoint.turn p q r
      = side.way * ((side.along q : ℤ) - side.along p) * side.inward last r := by
  cases side <;> simp only [On] at hp hq <;>
    simp only [GridPoint.turn, way, along, inward, hp, hq] <;> push_cast <;> ring

theorem point_mem_openSegment (last : Nat) (side : Side) {i j k : Nat} (h1 : i < j) (h2 : j < k) :
    (side.point last j).plane
      ∈ openSegment ℝ (side.point last i).plane (side.point last k).plane := by
  have e1 : (0 : ℝ) < (j : ℝ) - i := sub_pos.mpr (Nat.cast_lt.mpr h1)
  have e2 : (0 : ℝ) < (k : ℝ) - j := sub_pos.mpr (Nat.cast_lt.mpr h2)
  have e3 : (0 : ℝ) < (k : ℝ) - i := by linarith
  have mean : ((k : ℝ) - j) / (k - i) * i + ((j : ℝ) - i) / (k - i) * k = j := by
    field_simp
    ring
  have one : ((k : ℝ) - j) / (k - i) + ((j : ℝ) - i) / (k - i) = 1 := by
    field_simp
    ring
  have fixed : ∀ c : ℝ, ((k : ℝ) - j) / (k - i) * c + ((j : ℝ) - i) / (k - i) * c = c := by
    intro c
    rw [← add_mul, one, one_mul]
  refine ⟨_, _, div_pos e2 e3, div_pos e1 e3, one, ?_⟩
  cases side
  · exact Prod.ext mean (fixed last)
  · exact Prod.ext (fixed last) mean
  · exact Prod.ext mean (fixed _)
  · exact Prod.ext (fixed _) mean

end Side

namespace Mesh

/-! ## sums over the segments of a side -/

theorem mem_starts {last s j : Nat} : j ∈ starts last s ↔ ∃ k < last / s, j = k * s := by
  simp only [starts, List.mem_map, List.mem_range, eq_comm]

theorem starts_le {last s j : Nat} (h : j ∈ starts last s) : j + s ≤ last := by
  obtain ⟨k, hk, rfl⟩ := mem_starts.mp h
  calc k * s + s = (k + 1) * s := (Nat.succ_mul k s).symm
    _ ≤ last / s * s := Nat.mul_le_mul_right s hk
    _ ≤ last := Nat.div_mul_le_self last s

/-- what is no multiple of the stride lies within a segment -/
theorem exists_between {last s j : Nat} (hs : 0 < s) (hd : s ∣ last) (hnd : ¬ s ∣ j)
    (hle : j ≤ last) : ∃ k, k * s < j ∧ j < (k + 1) * s ∧ (k + 1) * s ≤ last := by
  obtain ⟨m, rfl⟩ := hd
  have hlow : j / s * s < j := by
    refine lt_of_le_of_ne (Nat.div_mul_le_self j s) fun e => hnd ?_
    rw [← e]
    exact Nat.dvd_mul_left s _
  have hup : j < (j / s + 1) * s := by
    rw [mul_comm]
    exact Nat.lt_mul_div_succ j hs
  have hj : j < s * m := by
    refine lt_of_le_of_ne hle fun e => hnd ?_
    rw [e]
    exact Nat.dvd_mul_right s m
  refine ⟨j / s, hlow, hup, ?_⟩
  rw [mul_comm]
  exact Nat.mul_le_mul_left s (Nat.div_lt_of_lt_mul hj)

theorem sum_steps (G : Nat → ℤ) (s : Nat) : ∀ m : Nat,
    ((List.range m).map fun k => G (k * s + s) - G (k * s)).sum = G (m * s) - G 0
  | 0 => by simp
  | m + 1 => by
    rw [List.range_succ, List.map_append, List.sum_append, sum_steps G s m, Nat.succ_mul]
    simp

theorem sum_starts (G : Nat → ℤ) {last s : Nat} (h : s ∣ last) :
    ((starts last s).map fun j => G (j + s) - G j).sum = G last - G 0 := by
  have e := sum_steps G s (last / s)
  rw [Nat.div_mul_cancel h] at e
  rw [starts, List.map_map]
  exact e

/-! ## the rim -/

/-- the segments of the rim, side by side -/
def rim (last : Nat) (s : Side → Nat) : List (GridPoint × GridPoint) :=
  Side.all.flatMap fun side => (starts last (s side)).map (side.edge last (s side))

def rimFlow (f : GridPoint → GridPoint → ℤ) (last : Nat) (s : Side → Nat) : ℤ :=
  ((rim last s).map fun e => f e.1 e.2).sum

theorem mem_rim {last : Nat} {s : Side → Nat} {e : GridPoint × GridPoint} :
    e ∈ rim last s ↔
      ∃ side : Side, ∃ j ∈ starts last (s side), side.edge last (s side) j = e := by
  simp only [rim, List.mem_flatMap, Side.mem_all, true_and, List.mem_map]

theorem rimFlow_eq (f : GridPoint → GridPoint → ℤ) (last : Nat) (s : Side → Nat) :
    rimFlow f last s = (Side.all.map fun side => ((starts last (s side)).map fun j =>
      f (side.edge last (s side) j).1 (side.edge last (s side) j).2).sum).sum := by
  unfold rimFlow rim
  rw [List.map_flatMap, List.flatMap, List.sum_flatten, List.map_map]
  simp only [List.map_map, Function.comp_def]

theorem rim_left {last : Nat} {s : Side → Nat} {p q r : GridPoint} (h : (p, q) ∈ rim last s)
    (hx : r.x ≤ last) (hy : r.y ≤ last) : 0 ≤ GridPoint.turn p q r := by
  obtain ⟨side, j, -, e⟩ := mem_rim.mp h
  obtain ⟨hp, hq⟩ := Side.on_of_edge e
  rw [Side.turn_on hp hq, Side.way_of_edge e]
  exact mul_nonneg (Int.natCast_nonneg _) (Side.inward_nonneg side hx hy)

/-- a segment of the rim between two points of a side belongs to that side -/
theorem rim_side {last : Nat} (hl : 0 < last) {s : Side → Nat} (hs : ∀ side, 0 < s side)
    {p q : GridPoint} (h : (p, q) ∈ rim last s) {side : Side} (hp : side.On last p)
    (hq : side.On last q) : ∃ j ∈ starts last (s side), side.edge last (s side) j = (p, q) := by
  obtain ⟨side', j, hj, e⟩ := mem_rim.mp h
  have hs' := hs side'
  have e' : side' = side := by
    cases side' <;> cases e <;> cases side <;> simp only [Side.On, Side.point] at hp hq <;>
      first | rfl | omega
  subst e'
  exact ⟨j, hj, e⟩

theorem rim_one_way {last : Nat} (hl : 0 < last) {s : Side → Nat} (hs : ∀ side, 0 < s side)
    {p q : GridPoint} (h : (p, q) ∈ rim last s) : (q, p) ∉ rim last s := by
  intro h'
  obtain ⟨side, j, -, e⟩ := mem_rim.mp h
  obtain ⟨hp, hq⟩ := Side.on_of_edge e
  obtain ⟨j', -, e'⟩ := rim_side hl hs h' hq hp
  have h1 := Side.way_of_edge e
  have h2 := Side.way_of_edge e'
  have hpos : (0 : ℤ) < s side := Int.natCast_pos.mpr (hs side)
  linarith

/-- one way along a side, the square lies to the right -/
theorem side_right {last : Nat} {side : Side} {p q : GridPoint} (hp : side.On last p)
    (hq : side.On last q) :
    (∀ r : GridPoint, r.x ≤ last → r.y ≤ last → GridPoint.turn p q r ≤ 0) ∨
      ∀ r : GridPoint, r.x ≤ last → r.y ≤ last → GridPoint.turn q p r ≤ 0 := by
  rcases le_total (side.way * ((side.along q : ℤ) - side.along p)) 0 with h | h
  · refine .inl fun r hx hy => ?_
    rw [Side.turn_on hp hq]
    exact mul_nonpos_of_nonpos_of_nonneg h (Side.inward_nonneg side hx hy)
  · refine .inr fun r hx hy => ?_
    rw [Side.turn_on hq hp]
    exact mul_nonpos_of_nonpos_of_nonneg (by linarith) (Side.inward_nonneg side hx hy)

/-! ## rays across the rim -/

section
variable {p : ℝ × ℝ} {last : Nat} {s : Side → Nat}

theorem crossing_level (p : ℝ × ℝ) (x x' y : Nat) : Triangle.crossingAt p ⟨x, y⟩ ⟨x', y⟩ = 0 := by
  unfold Triangle.crossingAt
  rcases le_or_gt (y : ℝ) p.2 with h | h
  · exact Plane.crossing_below h h
  · exact Plane.crossing_above h h

/-- whether the ray from `p` meets the vertical line at `x`, at or above height `y` -/
noncomputable def passes (p : ℝ × ℝ) (x y : Nat) : ℤ := if p.1 < x ∧ (y : ℝ) ≤ p.2 then 1 else 0

theorem crossing_upright (p : ℝ × ℝ) (x y s : Nat) :
    Triangle.crossingAt p ⟨x, y⟩ ⟨x, y + s⟩ = passes p x y - passes p x (y + s) := by
  have ht : Plane.turn (GridPoint.plane ⟨x, y⟩) (GridPoint.plane ⟨x, y + s⟩) p
      = (x - p.1) * s := by
    unfold Plane.turn GridPoint.plane
    push_cast
    ring
  have hle : (y : ℝ) ≤ (y + s : ℕ) := Nat.cast_le.mpr (Nat.le_add_right y s)
  unfold Triangle.crossingAt passes
  rcases le_or_gt (y : ℝ) p.2 with hy | hy
  · rcases le_or_gt ((y + s : ℕ) : ℝ) p.2 with hs | hs
    · rw [Plane.crossing_below hy hs]
      simp only [hy, hs, and_true, sub_self]
    · have hpos : (0 : ℝ) < s := by
        push_cast at hs
        linarith
      rw [Plane.crossing_up hy hs, ht]
      simp only [mul_pos_iff_of_pos_right hpos, sub_pos, hy, not_le.mpr hs, and_true, and_false,
        if_false, sub_zero]
  · have hs : p.2 < (y + s : ℕ) := hy.trans_le hle
    rw [Plane.crossing_above hy hs]
    simp only [not_le.mpr hy, not_le.mpr hs, and_false, sub_self]

theorem flow_rim (hs : ∀ side, s side ∣ last) (p : ℝ × ℝ) :
    rimFlow (Triangle.crossingAt p) last s
      = passes p last 0 - passes p last last - (passes p 0 0 - passes p 0 last) := by
  have hlevel : ∀ side, side = Side.north ∨ side = Side.south →
      ((starts last (s side)).map fun j => Triangle.crossingAt p
        (side.edge last (s side) j).1 (side.edge last (s side) j).2).sum = 0 := by
    rintro side (rfl | rfl) <;>
    · refine List.sum_eq_zero fun x hx => ?_
      obtain ⟨j, _, rfl⟩ := List.mem_map.mp hx
      exact crossing_level p _ _ _
  have heast : ((starts last (s .east)).map fun j => Triangle.crossingAt p
      (Side.east.edge last (s .east) j).1 (Side.east.edge last (s .east) j).2).sum
        = passes p last 0 - passes p last last := by
    have e := sum_starts (fun j => - passes p last j) (hs .east)
    rw [show passes p last 0 - passes p last last = -passes p last last - -passes p last 0 by ring,
      ← e]
    refine congrArg List.sum (List.map_congr_left fun j _ => ?_)
    show Triangle.crossingAt p ⟨last, j⟩ ⟨last, j + s .east⟩ = _
    rw [crossing_upright]
    ring
  have hwest : ((starts last (s .west)).map fun j => Triangle.crossingAt p
      (Side.west.edge last (s .west) j).1 (Side.west.edge last (s .west) j).2).sum
        = passes p 0 last - passes p 0 0 := by
    rw [← sum_starts (fun j => passes p 0 j) (hs .west)]
    refine congrArg List.sum (List.map_congr_left fun j _ => ?_)
    show Triangle.crossingAt p ⟨0, j + s .west⟩ ⟨0, j⟩ = _
    rw [Triangle.alternating_crossingAt p ⟨0, j⟩ ⟨0, j + s .west⟩, crossing_upright]
    ring
  rw [rimFlow_eq]
  simp only [Side.all, List.map_cons, List.map_nil, List.sum_cons, List.sum_nil,
    hlevel .north (.inl rfl), hlevel .south (.inr rfl), heast, hwest]
  ring

theorem flow_rim_inside (hs : ∀ side, s side ∣ last) (hx : 0 < p.1) (hx' : p.1 < last)
    (hy : 0 < p.2) (hy' : p.2 < last) : rimFlow (Triangle.crossingAt p) last s = 1 := by
  rw [flow_rim hs]
  simp [passes, hx', hy.le, not_le.mpr hy', not_lt.mpr hx.le]

theorem flow_rim_le (hs : ∀ side, s side ∣ last) (p : ℝ × ℝ) :
    rimFlow (Triangle.crossingAt p) last s ≤ 1 := by
  rw [flow_rim hs]
  have h1 : passes p last 0 ≤ 1 := by unfold passes; split <;> decide
  have h2 : passes p 0 last ≤ passes p last last := by
    unfold passes
    by_cases h : p.1 < ((0 : ℕ) : ℝ) ∧ (last : ℝ) ≤ p.2
    · have hx : p.1 < last := h.1.trans_le (Nat.cast_le.mpr (Nat.zero_le last))
      rw [if_pos h, if_pos ⟨hx, h.2⟩]
    · rw [if_neg h]
      split <;> decide
  have h3 : 0 ≤ passes p 0 0 := by unfold passes; split <;> decide
  linarith

end

end Mesh

end TerrainPatches
