import TerrainPatches.Proofs.Mesh.Stride
import TerrainPatches.Proofs.Mesh.Tessellation

/-!
# The stitched mesh is a tessellation

Every flow around the mesh of a grid is the flow along its rim, piece by piece.

* `flow_block`     what flows around a block of cells flows along its border;
* `flow_segment`   what flows around one segment of a strip flows along the rim, in at its end
                   (`spoke`) and back along the inner row;
* `flow_strip`     so only the two spokes at the corners and the inner row are left of a strip.

The spokes of neighbouring strips cancel at the corners and the inner rows cancel against the
border of the block (`flow_triangles`).

Strips are described side by side through the two rows that they join: `Side.point` on the rim
and `Side.row` one interval inward.  The strips of the south and the west side fan out from the
lower end of a segment, those of the north and the east side from its upper end; the order in
which a strip lists the corners of a triangle plays no part here.
-/

namespace TerrainPatches

/-! ## the inner row -/

namespace Side

/-- the points one interval inward of a side -/
def row (last : Nat) : Side → Nat → GridPoint
  | .south, j => ⟨j, 1⟩
  | .north, j => ⟨j, last - 1⟩
  | .west, j => ⟨1, j⟩
  | .east, j => ⟨last - 1, j⟩

/-- a triangle on a segment of the rim with its tip on the inner row -/
theorem turn_base {last : Nat} (hl : 1 ≤ last) (side : Side) (p s j : Nat) :
    GridPoint.turn (side.point last p) (side.point last (p + s)) (side.row last j)
      = side.way * s := by
  cases side <;> simp only [GridPoint.turn, point, row, way, Nat.cast_sub hl] <;> push_cast <;> ring

/-- a triangle on an interval of the inner row with its tip on the rim -/
theorem turn_fan {last : Nat} (hl : 1 ≤ last) (side : Side) (k j : Nat) :
    GridPoint.turn (side.point last k) (side.row last (j + 1)) (side.row last j) = side.way := by
  cases side <;> simp only [GridPoint.turn, point, row, way, Nat.cast_sub hl] <;> push_cast <;> ring

theorem sign_way (side : Side) : side.way.sign = side.way := by
  cases side <;> rfl

end Side

namespace Mesh

/-! ## fans -/

/-- the point of the inner row nearest to coordinate `j`: the row is one shorter at both ends -/
def inner (last j : Nat) : Nat := max 1 (min j (last - 1))

theorem inner_zero (last : Nat) : inner last 0 = 1 := by
  unfold inner
  omega

theorem inner_start {last p : Nat} (hp : p < last) : inner last p = if p = 0 then p + 1 else p := by
  unfold inner
  split <;> omega

theorem inner_end {last s p : Nat} (hl : 2 ≤ last) (hs : 0 < s) (hp : p + s ≤ last) :
    inner last (p + s) = if p + s = last then p + s - 1 else p + s := by
  unfold inner
  split <;> omega

theorem inner_last {last : Nat} (hl : 2 ≤ last) : inner last last = last - 1 := by
  unfold inner
  omega

/-- differences over the fan of a segment add up to the difference of its ends -/
theorem sum_fanOffsets (G : Nat → ℤ) {last p : Nat} (hl : 2 ≤ last) : ∀ s : Nat, p + s ≤ last →
    ((fanOffsets last s p).map fun i => G (p + i + 1) - G (p + i)).sum
      = G (inner last (p + s)) - G (inner last p)
  | 0, _ => by simp [fanOffsets]
  | s + 1, h => by
    have ih := sum_fanOffsets G hl s (Nat.le_of_succ_le h)
    unfold fanOffsets at ih ⊢
    rw [List.range_succ, List.filter_append, List.map_append, List.sum_append, ih]
    by_cases h0 : p + s = 0
    · have e : inner last (p + (s + 1)) = inner last (p + s) := by unfold inner; omega
      rw [e]
      simp [h0]
    · by_cases h1 : p + s = last - 1
      · have e : inner last (p + (s + 1)) = inner last (p + s) := by unfold inner; omega
        rw [e]
        simp [h1]
      · have e : inner last (p + s) = p + s := by unfold inner; omega
        have e' : inner last (p + (s + 1)) = p + s + 1 := by unfold inner; omega
        have hk : (p + s != 0 && p + s != last - 1) = true := by
          simp only [bne_iff_ne, Bool.and_eq_true]
          exact ⟨h0, h1⟩
        rw [e, e', List.filter_singleton, hk]
        simp

section
variable {f : GridPoint → GridPoint → ℤ}

/-- along the inner row as far as `j` -/
def alongRow (f : GridPoint → GridPoint → ℤ) (last : Nat) (side : Side) (j : Nat) : ℤ :=
  ∑ i ∈ Finset.range j, f (side.row last i) (side.row last (i + 1))

/-- inward at coordinate `j` and back along the inner row -/
def spoke (f : GridPoint → GridPoint → ℤ) (last : Nat) (side : Side) (j : Nat) : ℤ :=
  f (side.point last j) (side.row last (inner last j)) - alongRow f last side (inner last j)

theorem sum_fan (hf : Triangle.Alternating f) (side : Side) (a : GridPoint) {last s p : Nat}
    (hl : 2 ≤ last) (hp : p + s ≤ last) :
    ((fanOffsets last s p).map fun i => f a (side.row last (p + i + 1))
        + f (side.row last (p + i + 1)) (side.row last (p + i)) + f (side.row last (p + i)) a).sum
      = f a (side.row last (inner last (p + s))) - alongRow f last side (inner last (p + s))
        - (f a (side.row last (inner last p)) - alongRow f last side (inner last p)) := by
  rw [← sum_fanOffsets (fun j => f a (side.row last j) - alongRow f last side j) hl s hp]
  refine congrArg List.sum (List.map_congr_left fun i _ => ?_)
  show _ = f a (side.row last (p + i + 1)) - alongRow f last side (p + i + 1)
    - (f a (side.row last (p + i)) - alongRow f last side (p + i))
  rw [hf (side.row last (p + i)) (side.row last (p + i + 1)), hf a (side.row last (p + i))]
  unfold alongRow
  rw [Finset.sum_range_succ]
  ring

end

/-! ## one segment -/

/-- the end of a segment that its fan spreads from -/
def apex (side : Side) (s p : Nat) : Nat :=
  match side with
  | .south | .west => p
  | .north | .east => p + s

/-- where on the inner row the triangle on a segment has its tip -/
def tip (last : Nat) (side : Side) (s p : Nat) : Nat :=
  match side with
  | .south | .west => inner last (p + s)
  | .north | .east => inner last p

/-- the triangle on a segment of the rim -/
def base (last : Nat) (side : Side) (s p : Nat) : Triangle :=
  ⟨side.point last p, side.point last (p + s), side.row last (tip last side s p)⟩

/-- the triangle of its fan on one interval of the inner row -/
def blade (last : Nat) (side : Side) (s p i : Nat) : Triangle :=
  ⟨side.point last (apex side s p), side.row last (p + i + 1), side.row last (p + i)⟩

/-- the order in which a strip lists the corners of its bases -/
def listBase : Side → Triangle → Triangle
  | .south, t | .east, t => t
  | .north, t | .west, t => t.flip.rotate.rotate

/-- the order in which it lists the corners of its blades -/
def listBlade : Side → Triangle → Triangle
  | .south, t => t
  | .north, t => t.flip.rotate
  | .west, t => t.flip
  | .east, t => t.flip.rotate.rotate

section
variable {last s p : Nat}

theorem segment_eq (hl : 2 ≤ last) (hs : 0 < s) (hp : p + s ≤ last) (side : Side) :
    segment side last s p = listBase side (base last side s p) ::
      (fanOffsets last s p).map fun i => listBlade side (blade last side s p i) := by
  have lower : inner last p = if p = 0 then p + 1 else p := inner_start (by omega)
  have upper : inner last (p + s) = if p + s = last then p + s - 1 else p + s :=
    inner_end hl hs hp
  cases side
  · rw [segment, northSegment, base, tip, lower]
    split <;> rfl
  · rw [segment, eastSegment, base, tip, lower]
    split <;> rfl
  · rw [segment, southSegment, base, tip, upper]
    split <;> rfl
  · rw [segment, westSegment, base, tip, upper]
    split <;> rfl

theorem turn_base (hl : 2 ≤ last) (side : Side) : (base last side s p).turn = side.way * s :=
  Side.turn_base (by omega) side p s _

theorem turn_blade (hl : 2 ≤ last) (side : Side) (i : Nat) :
    (blade last side s p i).turn = side.way :=
  Side.turn_fan (by omega) side _ _

variable {f : GridPoint → GridPoint → ℤ}

theorem flow_listBase (hf : Triangle.Alternating f) (side : Side) (t : Triangle) :
    (listBase side t).flow f = t.flow f := by
  cases side <;> simp only [listBase, Triangle.flow_rotate, Triangle.flow_flip hf]

theorem flow_listBlade (hf : Triangle.Alternating f) (side : Side) (t : Triangle) :
    (listBlade side t).flow f = t.flow f := by
  cases side <;> simp only [listBlade, Triangle.flow_rotate, Triangle.flow_flip hf]

theorem flow_segment (hf : Triangle.Alternating f) (hl : 2 ≤ last) (hs : 0 < s) (hp : p + s ≤ last)
    (side : Side) : flow f (segment side last s p)
      = side.way * (f (side.point last p) (side.point last (p + s))
        + (spoke f last side (p + s) - spoke f last side p)) := by
  have hbase : (base last side s p).flow f = side.way * (f (side.point last p) (side.point last (p + s))
      + f (side.point last (p + s)) (side.row last (tip last side s p))
      + f (side.row last (tip last side s p)) (side.point last p)) := by
    rw [Triangle.flow, turn_base hl, Int.sign_mul, Side.sign_way,
      Int.sign_eq_one_of_pos (Int.natCast_pos.mpr hs), mul_one]
    rfl
  have hfan : ((fanOffsets last s p).map fun i => (blade last side s p i).flow f).sum
      = side.way * (f (side.point last (apex side s p)) (side.row last (inner last (p + s)))
        - alongRow f last side (inner last (p + s))
        - (f (side.point last (apex side s p)) (side.row last (inner last p))
          - alongRow f last side (inner last p))) := by
    rw [← sum_fan hf side _ hl hp, ← List.sum_map_mul_left]
    refine congrArg List.sum (List.map_congr_left fun i _ => ?_)
    rw [Triangle.flow, turn_blade hl, Side.sign_way]
    rfl
  rw [segment_eq hl hs hp, flow_cons, flow_map, flow_listBase hf]
  simp only [flow_listBlade hf]
  rw [hbase, hfan]
  unfold spoke
  cases side <;> simp only [apex, tip]
  · rw [hf (Side.point last .north p) (Side.row last .north (inner last p))]
    ring
  · rw [hf (Side.point last .east p) (Side.row last .east (inner last p))]
    ring
  · rw [hf (Side.point last .south p) (Side.row last .south (inner last (p + s)))]
    ring
  · rw [hf (Side.point last .west p) (Side.row last .west (inner last (p + s)))]
    ring

end

/-! ## strips -/

section
variable {f : GridPoint → GridPoint → ℤ}

theorem edge_flow (hf : Triangle.Alternating f) (last s : Nat) (side : Side) (j : Nat) :
    f (side.edge last s j).1 (side.edge last s j).2
      = side.way * f (side.point last j) (side.point last (j + s)) := by
  cases side <;> simp only [Side.edge, Side.way, one_mul, neg_one_mul] <;> exact hf _ _

theorem flow_strip (hf : Triangle.Alternating f) {last : Nat} (hl : 2 ≤ last) (seams : Seams)
    (side : Side) : flow f (strip last seams side)
      = ((starts last (stride last (seams.delta side))).map fun j =>
          f (side.edge last (stride last (seams.delta side)) j).1
            (side.edge last (stride last (seams.delta side)) j).2).sum
        + side.way * (spoke f last side last - spoke f last side 0) := by
  rw [← sum_starts (spoke f last side) (stride_dvd last (seams.delta side)),
    ← List.sum_map_mul_left, ← List.sum_map_add]
  show flow f ((starts last (stride last (seams.delta side))).flatMap
    (segment side last (stride last (seams.delta side)))) = _
  rw [flow_flatMap]
  refine congrArg List.sum (List.map_congr_left fun j hj => ?_)
  rw [flow_segment hf hl (stride_pos _ _) (starts_le hj), edge_flow hf, mul_add]

theorem spoke_ends {last : Nat} (hl : 2 ≤ last) (side : Side) :
    spoke f last side last - spoke f last side 0
      = f (side.point last last) (side.row last (last - 1)) - f (side.point last 0) (side.row last 1)
        - ∑ i ∈ Finset.Ico 1 (last - 1), f (side.row last i) (side.row last (i + 1)) := by
  unfold spoke alongRow
  rw [inner_last hl, inner_zero, Finset.sum_Ico_eq_sub _ (by omega)]
  ring

end

/-! ## blocks -/

section
variable {f : GridPoint → GridPoint → ℤ}

theorem turn_cell {x y : Nat} {t : Triangle} (h : t ∈ cell x y) : t.turn = 1 := by
  unfold cell at h
  split at h <;> simp only [List.mem_cons, List.not_mem_nil, or_false] at h <;>
    rcases h with rfl | rfl <;> simp only [Triangle.turn, Triangle.of, GridPoint.turn] <;>
    push_cast <;> ring

theorem flow_cell (hf : Triangle.Alternating f) (x y : Nat) : flow f (cell x y)
    = f ⟨x, y⟩ ⟨x + 1, y⟩ - f ⟨x, y + 1⟩ ⟨x + 1, y + 1⟩
      + (f ⟨x + 1, y⟩ ⟨x + 1, y + 1⟩ - f ⟨x, y⟩ ⟨x, y + 1⟩) := by
  have ht : ∀ t ∈ cell x y, t.flow f = f t.a t.b + f t.b t.c + f t.c t.a := by
    intro t ht
    exact Triangle.flow_of_pos (by rw [turn_cell ht]; exact one_pos)
  rw [flow, List.map_congr_left ht]
  unfold cell Triangle.of
  split
  · simp only [List.map_cons, List.map_nil, List.sum_cons, List.sum_nil]
    rw [hf ⟨x, y + 1⟩ ⟨x + 1, y⟩, hf ⟨x, y + 1⟩ ⟨x + 1, y + 1⟩, hf ⟨x, y⟩ ⟨x, y + 1⟩]
    ring
  · simp only [List.map_cons, List.map_nil, List.sum_cons, List.sum_nil]
    rw [hf ⟨x, y⟩ ⟨x + 1, y + 1⟩, hf ⟨x, y + 1⟩ ⟨x + 1, y + 1⟩, hf ⟨x, y⟩ ⟨x, y + 1⟩]
    ring

theorem sum_range' (g : Nat → ℤ) (lo k : Nat) :
    ((List.range' lo k).map g).sum = ∑ i ∈ Finset.Ico lo (lo + k), g i := by
  induction k with
  | zero => simp
  | succ k ih =>
    rw [List.range'_1_concat, List.map_append, List.sum_append, ih, ← Nat.add_assoc,
      Finset.sum_Ico_succ_top (Nat.le_add_right lo k)]
    simp

theorem sum_Ico_steps (G : Nat → ℤ) (lo k : Nat) :
    ∑ i ∈ Finset.Ico lo (lo + k), (G (i + 1) - G i) = G (lo + k) - G lo := by
  induction k with
  | zero => simp
  | succ k ih =>
    rw [← Nat.add_assoc, Finset.sum_Ico_succ_top (Nat.le_add_right lo k), ih]
    ring

theorem flow_block (hf : Triangle.Alternating f) (lo k : Nat) : flow f (block lo k)
    = ∑ i ∈ Finset.Ico lo (lo + k), (f ⟨i, lo⟩ ⟨i + 1, lo⟩ - f ⟨i, lo + k⟩ ⟨i + 1, lo + k⟩)
      + ∑ i ∈ Finset.Ico lo (lo + k), (f ⟨lo + k, i⟩ ⟨lo + k, i + 1⟩ - f ⟨lo, i⟩ ⟨lo, i + 1⟩) := by
  have hrow : ∀ y, flow f ((List.range' lo k).flatMap fun x => cell x y)
      = ∑ x ∈ Finset.Ico lo (lo + k), (f ⟨x, y⟩ ⟨x + 1, y⟩ - f ⟨x, y + 1⟩ ⟨x + 1, y + 1⟩)
        + (f ⟨lo + k, y⟩ ⟨lo + k, y + 1⟩ - f ⟨lo, y⟩ ⟨lo, y + 1⟩) := by
    intro y
    rw [flow_flatMap, sum_range', ← sum_Ico_steps (fun x => f ⟨x, y⟩ ⟨x, y + 1⟩),
      ← Finset.sum_add_distrib]
    exact Finset.sum_congr rfl fun x _ => flow_cell hf x y
  have hcol : ∑ y ∈ Finset.Ico lo (lo + k), ∑ x ∈ Finset.Ico lo (lo + k),
        (f ⟨x, y⟩ ⟨x + 1, y⟩ - f ⟨x, y + 1⟩ ⟨x + 1, y + 1⟩)
      = ∑ x ∈ Finset.Ico lo (lo + k), (f ⟨x, lo⟩ ⟨x + 1, lo⟩ - f ⟨x, lo + k⟩ ⟨x + 1, lo + k⟩) := by
    rw [Finset.sum_comm]
    refine Finset.sum_congr rfl fun x _ => ?_
    have e := sum_Ico_steps (fun y => - f ⟨x, y⟩ ⟨x + 1, y⟩) lo k
    rw [show f ⟨x, lo⟩ ⟨x + 1, lo⟩ - f ⟨x, lo + k⟩ ⟨x + 1, lo + k⟩
      = - f ⟨x, lo + k⟩ ⟨x + 1, lo + k⟩ - - f ⟨x, lo⟩ ⟨x + 1, lo⟩ by ring, ← e]
    exact Finset.sum_congr rfl fun y _ => by ring
  unfold block
  rw [flow_flatMap, sum_range']
  simp only [hrow]
  rw [Finset.sum_add_distrib, hcol]

end

/-! ## the whole mesh -/

theorem starts_one (last : Nat) : starts last 1 = List.range' 0 last := by
  rw [starts, Nat.div_one, ← List.range_eq_range']
  simp

/-- **Every flow around the mesh of a grid is the flow along its rim.** -/
theorem flow_triangles {f : GridPoint → GridPoint → ℤ} (hf : Triangle.Alternating f) {n : Nat}
    (h2 : 2 ≤ n) (seams : Seams) : flow f (triangles n seams)
      = rimFlow f (n - 1) fun side => stride (n - 1) (seams.delta side) := by
  rw [rimFlow_eq]
  simp only [Side.all, List.map_cons, List.map_nil, List.sum_cons, List.sum_nil]
  cases hr : rings n seams with
  | false =>
    rw [triangles_of_not_rings h2 hr, flow_block hf]
    simp only [stride_of_not_rings h2 hr, starts_one, edge_flow hf, sum_range',
      ← Finset.mul_sum, Finset.sum_sub_distrib, Nat.zero_add, Side.way, Side.point]
    ring
  | true =>
    have h3 := three_le_of_rings hr
    have hl : 2 ≤ n - 1 := by omega
    have hk : 1 + (n - 3) = n - 1 - 1 := by omega
    rw [triangles_of_rings hr]
    simp only [flow_append, flow_block hf, flow_strip hf hl, spoke_ends hl,
      Finset.sum_sub_distrib, hk, Side.way, Side.point, Side.row]
    ring

end Mesh

end TerrainPatches
