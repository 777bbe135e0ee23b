import TerrainPatches.Proofs.Mesh.Words

/-!
# What an index list holds

For every number of vertices per edge from 2 to 65536 and all seams, an index list is the mesh and
nothing is lost in it (`indices_lossless`): no number on the way to it leaves its range, it has a
place for each corner of each triangle, and reading a place back gives the number that was put
there, whichever words the list is stored in.

The number of triangles is counted strip by strip (`length_strip`): a side has one triangle for
each of its segments, and together the fans of the segments reach every interval of the inner row.
-/

namespace TerrainPatches

/-! ## storage -/

namespace Indices

theorem ofList_short_iff (l : List UInt32) (vertices : Nat) :
    (∃ s, ofList l vertices = .short s) ↔ vertices ≤ 65536 := by
  unfold ofList
  split
  · next h => exact iff_of_true ⟨_, rfl⟩ h
  · next h => exact iff_of_false (fun ⟨s, hs⟩ => by cases hs) h

theorem toOption_get (i : Indices) (k : Nat) : (i.get k).toOption = i.toList[k]? := by
  unfold get
  cases i.toList[k]? <;> rfl

end Indices

namespace Mesh

/-! ## how many triangles -/

section
variable {last s p : Nat}

/-- a segment has one triangle on the rim, and one on each interval of the inner row from where it
begins to where it ends -/
theorem length_segment (hl : 2 ≤ last) (hs : 0 < s) (hp : p + s ≤ last) (side : Side) :
    ((segment side last s p).length : ℤ) = 1 + ((inner last (p + s) : ℤ) - inner last p) := by
  rw [← sum_fanOffsets (fun j => (j : ℤ)) hl s hp, segment_eq hl hs hp, List.length_cons,
    List.length_map]
  simp [add_comm]

theorem length_starts (last s : Nat) : (starts last s).length = last / s := by
  rw [starts, List.length_map, List.length_range]

theorem length_strip (hl : 2 ≤ last) (seams : Seams) (side : Side) :
    ((strip last seams side).length : ℤ)
      = (last / stride last (seams.delta side) : ℕ) + ((last : ℤ) - 2) := by
  have ends : (inner last last : ℤ) - inner last 0 = (last : ℤ) - 2 := by
    rw [inner_last hl, inner_zero]
    omega
  calc ((strip last seams side).length : ℤ)
      = ((starts last (stride last (seams.delta side))).map fun p =>
          ((segment side last (stride last (seams.delta side)) p).length : ℤ)).sum := by
        rw [strip, List.length_flatMap, Nat.cast_list_sum, List.map_map]
        rfl
    _ = ((starts last (stride last (seams.delta side))).map fun p =>
          1 + ((inner last (p + stride last (seams.delta side)) : ℤ) - inner last p)).sum := by
        refine congrArg List.sum (List.map_congr_left fun p hp => ?_)
        exact length_segment hl (stride_pos _ _) (starts_le hp) side
    _ = (last / stride last (seams.delta side) : ℕ) + ((last : ℤ) - 2) := by
        rw [List.sum_map_add, sum_starts (fun j => (inner last j : ℤ)) (stride_dvd _ _), ends]
        simp [length_starts]

end

theorem length_block (lo k : Nat) : (block lo k).length = 2 * k ^ 2 := by
  simp only [block, List.length_flatMap, length_cell, List.map_const', List.length_range',
    List.sum_replicate, smul_eq_mul]
  ring

theorem length_triangles {n : Nat} (h2 : 2 ≤ n) (seams : Seams) :
    (triangles n seams).length = if 3 ≤ n ∧ seams.anyDelta = true then
      2 * (n - 3) ^ 2 + 4 * (n - 3)
        + (Side.all.map fun side => (n - 1) / stride (n - 1) (seams.delta side)).sum
    else 2 * (n - 1) ^ 2 := by
  cases hr : rings n seams with
  | false =>
    rw [if_neg (rings_iff.not.mp (ne_true_of_eq_false hr)), triangles_of_not_rings h2 hr,
      length_block]
  | true =>
    have h3 := three_le_of_rings hr
    have hl : 2 ≤ n - 1 := by omega
    have north := length_strip hl seams .north
    have east := length_strip hl seams .east
    have south := length_strip hl seams .south
    have west := length_strip hl seams .west
    rw [if_pos (rings_iff.mp hr), triangles_of_rings hr]
    simp only [List.length_append, length_block, Side.all, List.map_cons, List.map_nil,
      List.sum_cons, List.sum_nil]
    omega

/-! ## reading numbers back -/

theorem short_indices_iff (n : Nat) (seams : Seams) :
    (∃ s, indices n seams = .short s) ↔ n ≤ 256 := by
  rw [indices, Indices.ofList_short_iff]
  exact Nat.mul_self_le_mul_self_iff (n := 256)

theorem map_toNat_indices {n : Nat} (h2 : 2 ≤ n) (hn : n ≤ 65536) (seams : Seams) :
    (indices n seams).toList.map UInt32.toNat
      = (vertices (triangles n seams)).map fun p => p.x * n + p.y := by
  rw [toList_indices h2 hn, places_eq, List.map_map]
  refine List.map_congr_left fun p hp => ?_
  obtain ⟨hx, hy⟩ := vertices_lt h2 seams p hp
  exact toNat_place hn hx hy

/-- different points of a grid have different numbers -/
theorem number_injOn {n : Nat} (hn : n ≤ 65536) :
    Set.InjOn (fun p : GridPoint => p.x * n + p.y) {p | p.x < n ∧ p.y < n} := by
  intro p hp q hq h
  have same : place n p = place n q := congrArg UInt32.ofNat h
  rw [← pointAt_place hn hp.1 hp.2, same, pointAt_place hn hq.1 hq.2]

/-- **Nothing is lost in an index list.**  All numbers on the way to it stay in range, and its
vertices lie in the grid.  It has three places for each triangle: two triangles for each cell, or,
where a side is stitched, two for each cell inside the ring, one for each interval of the inner
rows and one for each segment of the sides.  Its words are short for up to 256 vertices along an
edge.  Each of its places, read one by one or all together, is the number of the vertex that it was
made for, so no two vertices of the grid are mistaken for one another. -/
theorem indices_lossless {n : Nat} (h2 : 2 ≤ n) (hn : n ≤ 65536) (seams : Seams) :
    indices? n seams = some (indices n seams) ∧
    (∀ p ∈ vertices (triangles n seams), p.x < n ∧ p.y < n) ∧
    (indices n seams).length = 3 * (if 3 ≤ n ∧ seams.anyDelta = true then
      2 * (n - 3) ^ 2 + 4 * (n - 3)
        + (Side.all.map fun side => (n - 1) / stride (n - 1) (seams.delta side)).sum
    else 2 * (n - 1) ^ 2) ∧
    ((∃ s, indices n seams = .short s) ↔ n ≤ 256) ∧
    (indices n seams).toList.map UInt32.toNat
      = (vertices (triangles n seams)).map (fun p => p.x * n + p.y) ∧
    (∀ k, ((indices n seams).get k).toOption.map UInt32.toNat
      = (vertices (triangles n seams))[k]?.map fun p => p.x * n + p.y) ∧
    (∀ k ∈ (indices n seams).toList, k.toNat < n * n) ∧
    Set.InjOn (fun p : GridPoint => p.x * n + p.y) {p | p.x < n ∧ p.y < n} := by
  have read := map_toNat_indices h2 hn seams
  refine ⟨indices?_eq hn seams, vertices_lt h2 seams, ?_, short_indices_iff n seams, read,
    fun k => ?_, fun k hk => lt_of_mem_indices hn hk, number_injOn hn⟩
  · rw [length_indices, length_triangles h2]
  · rw [Indices.toOption_get, ← List.getElem?_map, read, List.getElem?_map]

/-- the first grid whose places need wide words, with stride 2 in the south and one segment in the
west; its list begins in the corner of the ring -/
theorem indices_lossless_wide : 2 ≤ 257 ∧ 257 ≤ 65536 ∧
    indices? 257 ⟨0x9100⟩ = some (indices 257 ⟨0x9100⟩) ∧
    (indices 257 ⟨0x9100⟩).length = 392067 ∧
    (¬ ∃ s, indices 257 ⟨0x9100⟩ = .short s) ∧
    ((indices 257 ⟨0x9100⟩).get 0).toOption.map UInt32.toNat = some 258 ∧
    ∀ k ∈ (indices 257 ⟨0x9100⟩).toList, k.toNat < 257 * 257 := by
  obtain ⟨words, -, length, short, -, get, below, -⟩ :=
    indices_lossless (n := 257) (by decide) (by decide) ⟨0x9100⟩
  refine ⟨by decide, by decide, words, ?_, fun h => absurd (short.mp h) (by decide), ?_, below⟩
  · rw [length]
    decide
  · rw [get]
    rfl

end Mesh

end TerrainPatches
