import TerrainPatches.Proofs.Mesh.Stitching

/-!
# How the triangles of a mesh turn

Cells list their corners counterclockwise, and so do the strips of three sides.  The strip of the
east side does so for the triangles on the rim, but lists its fan clockwise (`fanTurn`).

* `mem_segment`       what the triangles of one segment look like;
* `eq_of_not_left`    every triangle of a mesh turns left unless it belongs to the fan of the east
                      side;
* `exists_right_iff`  there is such a triangle iff the grid has more than three vertices per edge
                      and some neighbour is coarser;
* `tessellation`      in either case the mesh is a tessellation of the square.
-/

namespace TerrainPatches

namespace Mesh

/-! ## one segment -/

/-- how the fans of a side turn -/
def fanTurn : Side → ℤ
  | .east => -1
  | _ => 1

section
variable {last s p : Nat}

theorem mem_fanOffsets {i : Nat} :
    i ∈ fanOffsets last s p ↔ i < s ∧ p + i ≠ 0 ∧ p + i ≠ last - 1 := by
  simp only [fanOffsets, List.mem_filter, List.mem_range, Bool.and_eq_true, bne_iff_ne]

theorem turn_listBase (hl : 2 ≤ last) (side : Side) :
    (listBase side (base last side s p)).turn = s := by
  cases side <;> simp only [listBase, Triangle.turn_rotate, Triangle.turn_flip, turn_base hl,
    Side.way, one_mul, neg_one_mul, neg_neg]

theorem turn_listBlade (hl : 2 ≤ last) (side : Side) (i : Nat) :
    (listBlade side (blade last side s p i)).turn = fanTurn side := by
  cases side <;> simp only [listBlade, Triangle.turn_rotate, Triangle.turn_flip, turn_blade hl,
    Side.way, fanTurn, neg_neg]

theorem mem_corners_listBase {side : Side} {t : Triangle} {v : GridPoint} :
    v ∈ (listBase side t).corners ↔ v ∈ t.corners := by
  cases side <;> simp only [listBase, Triangle.mem_corners_rotate, Triangle.mem_corners_flip]

theorem mem_corners_listBlade {side : Side} {t : Triangle} {v : GridPoint} :
    v ∈ (listBlade side t).corners ↔ v ∈ t.corners := by
  cases side <;> simp only [listBlade, Triangle.mem_corners_rotate, Triangle.mem_corners_flip]

theorem mem_segment (hl : 2 ≤ last) (hs : 0 < s) (hp : p + s ≤ last) {side : Side} {t : Triangle} :
    t ∈ segment side last s p ↔ t = listBase side (base last side s p) ∨
      ∃ i ∈ fanOffsets last s p, listBlade side (blade last side s p i) = t := by
  rw [segment_eq hl hs hp, List.mem_cons, List.mem_map]

theorem base_within (hl : 2 ≤ last) (hp : p + s ≤ last) (side : Side) :
    ∀ v ∈ (base last side s p).corners, v.x ≤ last ∧ v.y ≤ last := by
  have ht : tip last side s p ≤ last := by
    cases side <;> simp only [tip, inner] <;> omega
  simp only [base, Triangle.corners, List.mem_cons, List.not_mem_nil, or_false]
  rintro v (rfl | rfl | rfl) <;> cases side <;> simp only [Side.point, Side.row] <;> omega

theorem blade_within (hl : 2 ≤ last) (hp : p + s ≤ last) (side : Side) {i : Nat} (hi : i < s) :
    ∀ v ∈ (blade last side s p i).corners, v.x ≤ last ∧ v.y ≤ last := by
  have ha : apex side s p ≤ last := by
    cases side <;> simp only [apex] <;> omega
  simp only [blade, Triangle.corners, List.mem_cons, List.not_mem_nil, or_false]
  rintro v (rfl | rfl | rfl) <;> cases side <;> simp only [Side.point, Side.row] <;> omega

end

/-! ## strips and cells -/

theorem mem_strip {last : Nat} {seams : Seams} {side : Side} {t : Triangle} :
    t ∈ strip last seams side ↔ ∃ p ∈ starts last (stride last (seams.delta side)),
      t ∈ segment side last (stride last (seams.delta side)) p :=
  List.mem_flatMap

theorem strip_within {last : Nat} (hl : 2 ≤ last) {seams : Seams} {side : Side} {t : Triangle}
    (h : t ∈ strip last seams side) : ∀ v ∈ t.corners, v.x ≤ last ∧ v.y ≤ last := by
  obtain ⟨p, hp, ht⟩ := mem_strip.mp h
  intro v hv
  rcases (mem_segment hl (stride_pos _ _) (starts_le hp)).mp ht with rfl | ⟨i, hi, rfl⟩
  · exact base_within hl (starts_le hp) side v (mem_corners_listBase.mp hv)
  · exact blade_within hl (starts_le hp) side (mem_fanOffsets.mp hi).1 v
      (mem_corners_listBlade.mp hv)

theorem strip_turn {last : Nat} (hl : 2 ≤ last) {seams : Seams} {side : Side} {t : Triangle}
    (h : t ∈ strip last seams side) : 0 < t.turn ∨ t.turn = fanTurn side := by
  obtain ⟨p, hp, ht⟩ := mem_strip.mp h
  rcases (mem_segment hl (stride_pos _ _) (starts_le hp)).mp ht with rfl | ⟨i, -, rfl⟩
  · rw [turn_listBase hl]
    exact .inl (Int.natCast_pos.mpr (stride_pos _ _))
  · exact .inr (turn_listBlade hl side i)

theorem mem_block {lo k : Nat} {t : Triangle} : t ∈ block lo k ↔
    ∃ y, (lo ≤ y ∧ y < lo + k) ∧ ∃ x, (lo ≤ x ∧ x < lo + k) ∧ t ∈ cell x y := by
  simp only [block, List.mem_flatMap, List.mem_range'_1]

theorem cell_within {x y : Nat} {t : Triangle} (h : t ∈ cell x y) :
    ∀ v ∈ t.corners, v.x ≤ x + 1 ∧ v.y ≤ y + 1 := by
  unfold cell at h
  split at h <;> simp only [List.mem_cons, List.not_mem_nil, or_false] at h <;>
    rcases h with rfl | rfl <;>
    simp only [Triangle.of, Triangle.corners, List.mem_cons, List.not_mem_nil, or_false] <;>
    rintro v (rfl | rfl | rfl) <;> dsimp only <;> omega

theorem block_within {lo k : Nat} {t : Triangle} (h : t ∈ block lo k) :
    ∀ v ∈ t.corners, v.x ≤ lo + k ∧ v.y ≤ lo + k := by
  obtain ⟨y, hy, x, hx, ht⟩ := mem_block.mp h
  intro v hv
  have := cell_within ht v hv
  omega

theorem block_turn {lo k : Nat} {t : Triangle} (h : t ∈ block lo k) : t.turn = 1 := by
  obtain ⟨y, -, x, -, ht⟩ := mem_block.mp h
  exact turn_cell ht

/-! ## the whole mesh -/

theorem mem_triangles {n : Nat} (h2 : 2 ≤ n) {seams : Seams} {t : Triangle} :
    t ∈ triangles n seams ↔ if rings n seams then
      t ∈ block 1 (n - 3) ∨ ∃ side, t ∈ strip (n - 1) seams side else t ∈ block 0 (n - 1) := by
  cases hr : rings n seams with
  | false => rw [triangles_of_not_rings h2 hr, if_neg Bool.false_ne_true]
  | true =>
    rw [triangles_of_rings hr, if_pos rfl]
    simp only [List.mem_append]
    constructor
    · rintro ((((h | h) | h) | h) | h)
      · exact .inl h
      · exact .inr ⟨.south, h⟩
      · exact .inr ⟨.north, h⟩
      · exact .inr ⟨.west, h⟩
      · exact .inr ⟨.east, h⟩
    · rintro (h | ⟨side, h⟩)
      · exact .inl (.inl (.inl (.inl h)))
      · cases side
        · exact .inl (.inl (.inr h))
        · exact .inr h
        · exact .inl (.inl (.inl (.inr h)))
        · exact .inl (.inr h)

theorem mem_triangles_of_strip {n : Nat} (h2 : 2 ≤ n) {seams : Seams} (hr : rings n seams = true)
    {side : Side} {t : Triangle} (h : t ∈ strip (n - 1) seams side) : t ∈ triangles n seams := by
  rw [mem_triangles h2, if_pos hr]
  exact .inr ⟨side, h⟩

/-- what every cell of a block and every strip has, the mesh has -/
theorem triangles_induction {motive : Triangle → Prop} {n : Nat} (h2 : 2 ≤ n) {seams : Seams}
    (cells : ∀ lo k, lo + k ≤ n - 1 → ∀ t ∈ block lo k, motive t)
    (strips : rings n seams = true → ∀ side, ∀ t ∈ strip (n - 1) seams side, motive t) :
    ∀ t ∈ triangles n seams, motive t := by
  intro t ht
  rw [mem_triangles h2] at ht
  split at ht
  · next hr =>
    have h3 := three_le_of_rings hr
    rcases ht with ht | ⟨side, ht⟩
    · exact cells 1 (n - 3) (by omega) t ht
    · exact strips hr side t ht
  · exact cells 0 (n - 1) (by omega) t ht

theorem triangles_within {n : Nat} (h2 : 2 ≤ n) {seams : Seams} :
    ∀ t ∈ triangles n seams, ∀ v ∈ t.corners, v.x ≤ n - 1 ∧ v.y ≤ n - 1 := by
  refine triangles_induction h2 (fun lo k hk t ht v hv => ?_) (fun hr side t ht => ?_)
  · have := block_within ht v hv
    omega
  · have h3 := three_le_of_rings hr
    exact strip_within (by omega) ht

theorem triangles_turn {n : Nat} (h2 : 2 ≤ n) {seams : Seams} :
    ∀ t ∈ triangles n seams, t.turn ≠ 0 := by
  refine triangles_induction h2 (fun lo k hk t ht => ?_) (fun hr side t ht => ?_)
  · rw [block_turn ht]
    exact one_ne_zero
  · have h3 := three_le_of_rings hr
    rcases strip_turn (by omega) ht with h | h
    · exact h.ne'
    · rw [h]
      cases side <;> decide

/-! ## the fan of the east side -/

/-- every interval of the inner row between the corners belongs to a fan -/
theorem exists_fan {last s j : Nat} (hs : 0 < s) (hd : s ∣ last) (h1 : 1 ≤ j) (hj : j < last - 1) :
    ∃ p ∈ starts last s, ∃ i ∈ fanOffsets last s p, p + i = j := by
  have hdm : j / s * s + j % s = j := Nat.div_add_mod' j s
  refine ⟨j / s * s, mem_starts.mpr ⟨j / s, ?_, rfl⟩, j % s,
    mem_fanOffsets.mpr ⟨Nat.mod_lt j hs, by omega, by omega⟩, hdm⟩
  refine Nat.div_lt_of_lt_mul ?_
  rw [Nat.mul_div_cancel' hd]
  omega

theorem eq_of_not_left {n : Nat} (h2 : 2 ≤ n) {seams : Seams} : ∀ t ∈ triangles n seams,
    t.turn ≤ 0 → ∃ y e, t = .of (n - 2) (y + 1) (n - 1) e (n - 2) y := by
  refine triangles_induction h2 (fun lo k _ t ht h => ?_) (fun hr side t ht h => ?_)
  · rw [block_turn ht] at h
    exact absurd h (by decide)
  · have h3 := three_le_of_rings hr
    have hl : 2 ≤ n - 1 := by omega
    rcases strip_turn hl ht with h' | h'
    · omega
    · have e : side = .east := by
        cases side <;> first | rfl | (rw [h'] at h; exact absurd h (by decide))
      subst e
      obtain ⟨p, hp, hseg⟩ := mem_strip.mp ht
      have hpos := stride_pos (n - 1) (seams.delta .east)
      rcases (mem_segment hl hpos (starts_le hp)).mp hseg with rfl | ⟨i, -, rfl⟩
      · rw [turn_listBase hl] at h
        omega
      · exact ⟨p + i, _, rfl⟩

/-- **Some triangle turns right iff there is a fan at the east side.** -/
theorem exists_right_iff {n : Nat} (h2 : 2 ≤ n) (seams : Seams) :
    (∃ t ∈ triangles n seams, t.turn ≤ 0) ↔ 4 ≤ n ∧ seams.anyDelta = true := by
  constructor
  · rintro ⟨t, ht, h⟩
    revert h
    refine triangles_induction (motive := fun t => t.turn ≤ 0 → 4 ≤ n ∧ seams.anyDelta = true) h2
      (fun lo k _ t ht h => ?_) (fun hr side t ht h => ?_) t ht
    · rw [block_turn ht] at h
      exact absurd h (by decide)
    · have h3 := three_le_of_rings hr
      have hl : 2 ≤ n - 1 := by omega
      obtain ⟨p, hp, hseg⟩ := mem_strip.mp ht
      have hle := starts_le hp
      have hpos := stride_pos (n - 1) (seams.delta side)
      simp only [rings, Bool.and_eq_true] at hr
      refine ⟨?_, hr.1⟩
      rcases (mem_segment hl hpos hle).mp hseg with rfl | ⟨i, hi, -⟩
      · rw [turn_listBase hl] at h
        omega
      · obtain ⟨h1, h2, h3⟩ := mem_fanOffsets.mp hi
        omega
  · rintro ⟨h4, ha⟩
    have hr : rings n seams = true := by
      rw [rings, ha, Bool.true_and]
      exact decide_eq_true (by omega)
    obtain ⟨p, hp, i, hi, -⟩ := exists_fan (stride_pos (n - 1) (seams.delta .east))
      (stride_dvd (n - 1) (seams.delta .east)) (le_refl 1) (by omega)
    have hl : 2 ≤ n - 1 := by omega
    have hstrip : _ ∈ strip (n - 1) seams .east := mem_strip.mpr ⟨p, hp,
      (mem_segment hl (stride_pos _ _) (starts_le hp)).mpr (.inr ⟨i, hi, rfl⟩)⟩
    refine ⟨_, mem_triangles_of_strip h2 hr hstrip, ?_⟩
    rw [turn_listBlade hl]
    decide

/-- **The mesh of a grid is a tessellation of its square.** -/
theorem tessellation {n : Nat} (h2 : 2 ≤ n) (seams : Seams) :
    Tessellation (n - 1) (fun side => stride (n - 1) (seams.delta side)) (triangles n seams) where
  size_pos := by omega
  stride_pos _ := stride_pos _ _
  stride_dvd _ := stride_dvd _ _
  turned := triangles_turn h2
  within := triangles_within h2
  flow_eq _ hf := flow_triangles hf h2 seams

end Mesh

end TerrainPatches
