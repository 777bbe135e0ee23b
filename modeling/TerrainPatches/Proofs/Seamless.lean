import TerrainPatches.Proofs.Mesh.Reading
import TerrainPatches.Proofs.Mesh.Stride
import TerrainPatches.Source.Flat

/-!
# Seamless neighbours

Two patches of one size share an edge, and the finer one is stitched to the coarser.  Over exact
numbers, the vertices that a patch uses on a side divide it into equal parts, as many as there are
segments of its stride (`sidePositions_samples`, `sideSegments_samples`).  The finer patch has
`2 ^ d` times as many intervals and `2 ^ d` as its stride, so both divide the shared edge into the
same parts (`seamless`).
-/

namespace TerrainPatches

/-! ## neighbours -/

namespace Side

def opposite : Side → Side
  | .north => .south
  | .east => .west
  | .south => .north
  | .west => .east

/-- the center of the patch of the same size beyond a side -/
def across (size : ℚ) (center : Point2 ℚ) : Side → Point2 ℚ
  | .north => ⟨center.x, center.y + size⟩
  | .east => ⟨center.x + size, center.y⟩
  | .south => ⟨center.x, center.y - size⟩
  | .west => ⟨center.x - size, center.y⟩

theorem point_lt {last j : Nat} (h : j ≤ last) (side : Side) :
    (side.point last j).x < last + 1 ∧ (side.point last j).y < last + 1 := by
  cases side <;> simp only [point] <;> omega

end Side

/-! ## the parts of a side -/

namespace Mesh

section
variable {n s m : Nat} {seams : Seams} {side : Side} (h2 : 2 ≤ n)
  (hs : stride (n - 1) (seams.delta side) = s) (hm : n - 1 = m * s)
include h2 hm

theorem stride_factor_pos : 0 < s := by
  refine Nat.pos_of_ne_zero ?_
  rintro rfl
  omega

theorem multiple_lt (side : Side) {k : Nat} (hk : k ≤ m) : (side.point (n - 1) (k * s)).x < n ∧
    (side.point (n - 1) (k * s)).y < n := by
  have hle : k * s ≤ n - 1 := by
    rw [hm]
    exact Nat.mul_le_mul_right s hk
  have := side.point_lt hle
  omega

include hs

theorem corner_iff_multiple {v : GridPoint} (hv : side.On (n - 1) v) :
    (∃ t ∈ triangles n seams, v ∈ t.corners) ↔ ∃ k ≤ m, v = side.point (n - 1) (k * s) := by
  have hpos := stride_factor_pos h2 hm
  rw [(tessellation h2 seams).corner_on_iff hv, hs]
  constructor
  · rintro ⟨⟨k, hk⟩, hle⟩
    refine ⟨k, Nat.le_of_mul_le_mul_right ?_ hpos, ?_⟩
    · rwa [← hm, mul_comm k, ← hk]
    · rw [mul_comm k, ← hk]
      exact Side.eq_point hv
  · rintro ⟨k, hk, rfl⟩
    rw [Side.along_point, hm]
    exact ⟨Dvd.intro_left k rfl, Nat.mul_le_mul_right s hk⟩

theorem hasSide_iff_multiple {p q : GridPoint} (hp : side.On (n - 1) p) (hq : side.On (n - 1) q) :
    (∃ t ∈ triangles n seams, t.HasSide p q) ↔
      ∃ k < m, s(p, q) = s(side.point (n - 1) (k * s), side.point (n - 1) ((k + 1) * s)) := by
  have hpos := stride_factor_pos h2 hm
  rw [(tessellation h2 seams).conforming.border_sides side p q hp hq, hs]
  refine exists_congr fun k => and_congr_left fun _ => ?_
  rw [hm, Nat.mul_le_mul_right_iff hpos, Nat.succ_le_iff]

end

end Mesh

/-! ## what a patch draws along a side -/

/-- the positions of the vertices on a side that an index list uses -/
def sidePositions (n : Nat) (side : Side) (positions : List (Point3 ℚ)) (indices : Indices) :
    Set (Point3 ℚ) :=
  {P | ∃ k ∈ indices.toList, side.On (n - 1) (Indices.pointAt n k) ∧
    positions[k.toNat]? = some P}

/-- the sides of triangles that an index list draws on a side of the patch -/
def sideSegments (n : Nat) (side : Side) (positions : List (Point3 ℚ)) (indices : Indices) :
    Set (Sym2 (Point3 ℚ)) :=
  {e | ∃ t ∈ indices.drawn n, ∃ p q, t.HasSide p q ∧ side.On (n - 1) p ∧ side.On (n - 1) q ∧
    ∃ P Q, positions[p.x * n + p.y]? = some P ∧ positions[q.x * n + q.y]? = some Q ∧ e = s(P, Q)}

/-! ## exact numbers -/

theorem toNat_natCast (k : Nat) : Scalar.toNat (k : ℚ) = k := by
  show (Rat.floor (k : ℚ)).toNat = k
  rw [← Int.cast_natCast, Rat.floor_intCast, Int.toNat_natCast]

theorem twoPow_eq_pow : ∀ k : Nat, (Scalar.twoPow k : ℚ) = 2 ^ k
  | 0 => by
    show ((1 : Nat) : ℚ) = 2 ^ 0
    norm_num
  | k + 1 => by
    show ((2 : Nat) : ℚ) * Scalar.twoPow k = 2 ^ (k + 1)
    rw [twoPow_eq_pow k, pow_succ]
    push_cast
    ring

theorem intervals_eq {cellVertices k : Nat} {size : ℚ} {level : UInt8}
    (h : ((cellVertices - 1 : Nat) : ℚ) * size / 2 ^ level.toNat = k) :
    intervals cellVertices size level = k := by
  show Scalar.toNat (((cellVertices - 1 : Nat) : ℚ) * size / Scalar.twoPow level.toNat) = k
  rw [twoPow_eq_pow, h, toNat_natCast]

theorem resolution_eq {cellVertices k : Nat} {size : ℚ} {level : UInt8} (hc : 2 ≤ cellVertices)
    (h : ((cellVertices - 1 : Nat) : ℚ) * size / 2 ^ level.toNat = k) (hk : k + 1 < countLimit) :
    resolution cellVertices size level = .ok (k + 1) := by
  rw [resolution, if_neg (by omega), intervals_eq h, if_pos hk]

namespace FlatTerrain

/-- the point of a side of a patch that divides it in the ratio `r` -/
def sidePoint (cellWorldSize size : ℚ) (center : Point2 ℚ) : Side → ℚ → Point3 ℚ
  | .south, r => ⟨(center.x - size / 2 + r * size) * cellWorldSize,
      (center.y - size / 2) * cellWorldSize, 0⟩
  | .north, r => ⟨(center.x - size / 2 + r * size) * cellWorldSize,
      (center.y + size / 2) * cellWorldSize, 0⟩
  | .west, r => ⟨(center.x - size / 2) * cellWorldSize,
      (center.y - size / 2 + r * size) * cellWorldSize, 0⟩
  | .east, r => ⟨(center.x + size / 2) * cellWorldSize,
      (center.y - size / 2 + r * size) * cellWorldSize, 0⟩

section
variable (cellWorldSize size : ℚ) (center : Point2 ℚ)

theorem sidePoint_across (side : Side) (r : ℚ) :
    sidePoint cellWorldSize size (side.across size center) side.opposite r
      = sidePoint cellWorldSize size center side r := by
  have up : ∀ c : ℚ, c + size - size / 2 = c + size / 2 := fun c => by ring
  have down : ∀ c : ℚ, c - size + size / 2 = c - size / 2 := fun c => by ring
  cases side <;> simp only [Side.across, Side.opposite, sidePoint, up, down]

theorem sample_eq {n : Nat} (h : 2 ≤ n) (p : GridPoint) :
    sample cellWorldSize size center n p =
      ⟨(center.x - size / 2 + p.x / (n - 1 : Nat) * size) * cellWorldSize,
        (center.y - size / 2 + p.y / (n - 1 : Nat) * size) * cellWorldSize, 0⟩ := by
  have e : max n 2 - 1 = n - 1 := by omega
  show (⟨(center.x - size / (2 : Nat)) * cellWorldSize
      + p.x * (size * cellWorldSize / (max n 2 - 1 : Nat)),
    (center.y - size / (2 : Nat)) * cellWorldSize
      + p.y * (size * cellWorldSize / (max n 2 - 1 : Nat)), ((0 : Nat) : ℚ)⟩ : Point3 ℚ) = _
  rw [e, Point3.mk.injEq]
  push_cast
  refine ⟨?_, ?_, rfl⟩ <;> ring

theorem sample_point {n : Nat} (h : 2 ≤ n) (side : Side) (j : Nat) :
    sample cellWorldSize size center n (side.point (n - 1) j)
      = sidePoint cellWorldSize size center side (j / (n - 1 : Nat)) := by
  have h0 : ((n - 1 : Nat) : ℚ) ≠ 0 := Nat.cast_ne_zero.mpr (by omega)
  have near : ∀ c : ℚ, c - size / 2 + 0 / (n - 1 : Nat) * size = c - size / 2 := fun c => by ring
  have far : ∀ c : ℚ, c - size / 2 + 1 * size = c + size / 2 := fun c => by ring
  rw [sample_eq _ _ _ h]
  cases side <;> simp only [Side.point, sidePoint, Nat.cast_zero, div_self h0, near, far]

theorem samples_getElem? {n : Nat} {p : GridPoint} (hx : p.x < n) (hy : p.y < n) :
    (samples cellWorldSize size center n)[p.x * n + p.y]?
      = some (sample cellWorldSize size center n p) := by
  rw [samples, List.getElem?_map, Grid.points_getElem? hx hy]
  rfl

end

/-! ## the parts of a side in the world -/

section
variable (cellWorldSize size : ℚ) (center : Point2 ℚ) {n s m : Nat} {seams : Seams} {side : Side}
  (h2 : 2 ≤ n) (hn : n ≤ 65536) (hs : Mesh.stride (n - 1) (seams.delta side) = s)
  (hm : n - 1 = m * s)
include h2 hm

/-- the vertices at the multiples of the stride divide the side into equal parts -/
theorem sample_multiple (k : Nat) :
    sample cellWorldSize size center n (side.point (n - 1) (k * s))
      = sidePoint cellWorldSize size center side (k / m) := by
  have h0 : (s : ℚ) ≠ 0 := Nat.cast_ne_zero.mpr (Mesh.stride_factor_pos h2 hm).ne'
  rw [sample_point _ _ _ h2, hm, Nat.cast_mul, Nat.cast_mul, mul_div_mul_right _ _ h0]

include hs hn

/-- **The vertices that a patch uses on a side divide it into equal parts.** -/
theorem sidePositions_samples :
    sidePositions n side (samples cellWorldSize size center n) (Mesh.indices n seams)
      = {P | ∃ k ≤ m, P = sidePoint cellWorldSize size center side (k / m)} := by
  ext P
  constructor
  · rintro ⟨i, hi, hon, hP⟩
    obtain ⟨t, ht, p, hp, rfl⟩ := (Mesh.mem_toList_indices h2 hn seams).mp hi
    obtain ⟨hx, hy⟩ := Mesh.triangles_lt h2 seams t ht p hp
    rw [Mesh.pointAt_place hn hx hy] at hon
    rw [Mesh.toNat_place hn hx hy, samples_getElem? _ _ _ hx hy] at hP
    obtain ⟨k, hk, rfl⟩ := (Mesh.corner_iff_multiple h2 hs hm hon).mp ⟨t, ht, hp⟩
    refine ⟨k, hk, ?_⟩
    rw [← sample_multiple _ _ _ h2 hm]
    exact (Option.some.inj hP).symm
  · rintro ⟨k, hk, rfl⟩
    have hon := side.on_point (n - 1) (k * s)
    obtain ⟨hx, hy⟩ := Mesh.multiple_lt h2 hm side hk
    obtain ⟨t, ht, hv⟩ := (Mesh.corner_iff_multiple h2 hs hm hon).mpr ⟨k, hk, rfl⟩
    refine ⟨_, (Mesh.mem_toList_indices h2 hn seams).mpr ⟨t, ht, _, hv, rfl⟩, ?_, ?_⟩
    · rwa [Mesh.pointAt_place hn hx hy]
    · rw [Mesh.toNat_place hn hx hy, samples_getElem? _ _ _ hx hy, sample_multiple _ _ _ h2 hm]

/-- **The segments that a patch draws on a side are these parts.** -/
theorem sideSegments_samples :
    sideSegments n side (samples cellWorldSize size center n) (Mesh.indices n seams)
      = {e | ∃ k < m, e = s(sidePoint cellWorldSize size center side (k / m),
          sidePoint cellWorldSize size center side ((k + 1 : Nat) / m))} := by
  ext e
  unfold sideSegments
  rw [Mesh.drawn_indices h2 hn]
  constructor
  · rintro ⟨t, ht, p, q, h, hp, hq, P, Q, hP, hQ, rfl⟩
    obtain ⟨hpx, hpy⟩ := Mesh.triangles_lt h2 seams t ht p h.mem_corners.1
    obtain ⟨hqx, hqy⟩ := Mesh.triangles_lt h2 seams t ht q h.mem_corners.2
    rw [samples_getElem? _ _ _ hpx hpy] at hP
    rw [samples_getElem? _ _ _ hqx hqy] at hQ
    obtain ⟨k, hk, e⟩ := (Mesh.hasSide_iff_multiple h2 hs hm hp hq).mp ⟨t, ht, h⟩
    refine ⟨k, hk, ?_⟩
    rw [← sample_multiple _ _ _ h2 hm, ← sample_multiple _ _ _ h2 hm, ← Option.some.inj hP,
      ← Option.some.inj hQ]
    exact congrArg (Sym2.map (sample cellWorldSize size center n)) e
  · rintro ⟨k, hk, rfl⟩
    have hp := side.on_point (n - 1) (k * s)
    have hq := side.on_point (n - 1) ((k + 1) * s)
    obtain ⟨t, ht, h⟩ := (Mesh.hasSide_iff_multiple h2 hs hm hp hq).mpr ⟨k, hk, rfl⟩
    obtain ⟨hpx, hpy⟩ := Mesh.multiple_lt h2 hm side hk.le
    obtain ⟨hqx, hqy⟩ := Mesh.multiple_lt h2 hm side (Nat.succ_le_of_lt hk)
    refine ⟨t, ht, _, _, h, hp, hq, _, _, samples_getElem? _ _ _ hpx hpy,
      samples_getElem? _ _ _ hqx hqy, ?_⟩
    rw [sample_multiple _ _ _ h2 hm, sample_multiple _ _ _ h2 hm]

end

end FlatTerrain

/-! ## two patches -/

section
open FlatTerrain

/-- **A patch and its coarser neighbour use the same vertices of the edge that they share, and draw
the same segments between them.** -/
theorem seamless (cellWorldSize : ℚ) (center : Point2 ℚ) {cellVertices d m : Nat} {size : ℚ}
    {a b : UInt8} {A B : Seams} {side : Side} (hc : 2 ≤ cellVertices) (hb : b.toNat = a.toNat + d)
    (hpos : 0 < m)
    (hm : ((cellVertices - 1 : Nat) : ℚ) * size / 2 ^ (a.toNat + d) = m)
    (hn : intervals cellVertices size a + 1 ≤ 65536) (hA : (A.delta side).toNat = d)
    (hB : B.delta side.opposite = 0) :
    ∃ nA nB, resolution cellVertices size a = .ok nA ∧ resolution cellVertices size b = .ok nB ∧
      sidePositions nA side (samples cellWorldSize size center nA) (Mesh.indices nA A)
        = sidePositions nB side.opposite
            (samples cellWorldSize size (side.across size center) nB) (Mesh.indices nB B) ∧
      sideSegments nA side (samples cellWorldSize size center nA) (Mesh.indices nA A)
        = sideSegments nB side.opposite
            (samples cellWorldSize size (side.across size center) nB) (Mesh.indices nB B) := by
  have hp : 0 < 2 ^ d := Nat.two_pow_pos d
  have fine : ((cellVertices - 1 : Nat) : ℚ) * size / 2 ^ a.toNat = (m * 2 ^ d : Nat) := by
    rw [Nat.cast_mul, ← hm, pow_add]
    push_cast
    field_simp
  have coarse : ((cellVertices - 1 : Nat) : ℚ) * size / 2 ^ b.toNat = m := by
    rw [hb]
    exact hm
  rw [intervals_eq fine] at hn
  have hle : m ≤ m * 2 ^ d := Nat.le_mul_of_pos_right m hp
  have sA : Mesh.stride (m * 2 ^ d + 1 - 1) (A.delta side) = 2 ^ d := by
    rw [Nat.add_sub_cancel, Mesh.stride_of_pow_dvd (by omega), hA]
    rw [hA]
    exact Dvd.intro_left m rfl
  have sB : Mesh.stride (m + 1 - 1) (B.delta side.opposite) = 1 := by
    rw [Nat.add_sub_cancel, Mesh.stride_of_pow_dvd hpos, hB]
    · rfl
    · rw [hB]
      exact one_dvd m
  have hcount : (65536 : Nat) < countLimit := by decide
  refine ⟨_, _, resolution_eq hc fine (by omega), resolution_eq hc coarse (by omega), ?_, ?_⟩
  · rw [sidePositions_samples _ _ _ (by omega) hn sA rfl,
      sidePositions_samples _ _ _ (by omega) (by omega) sB (mul_one m).symm]
    simp only [sidePoint_across]
  · rw [sideSegments_samples _ _ _ (by omega) hn sA rfl,
      sideSegments_samples _ _ _ (by omega) (by omega) sB (mul_one m).symm]
    simp only [sidePoint_across]

/-- nine vertices per edge meet three in the east; both patches have a coarser neighbour besides -/
theorem seamless_nine_three : 2 ≤ 5 ∧ (3 : UInt8).toNat = (1 : UInt8).toNat + 2 ∧ 0 < 2 ∧
    ((5 - 1 : Nat) : ℚ) * 4 / 2 ^ ((1 : UInt8).toNat + 2) = (2 : Nat) ∧
    intervals 5 (4 : ℚ) 1 + 1 ≤ 65536 ∧ (Seams.delta ⟨0x21⟩ .east).toNat = 2 ∧
    Seams.delta ⟨0x100⟩ .west = 0 ∧
    resolution 5 (4 : ℚ) 1 = .ok 9 ∧ resolution 5 (4 : ℚ) 3 = .ok 3 ∧
    sidePositions 9 .east (samples 3 4 ⟨1 / 2, -3⟩ 9) (Mesh.indices 9 ⟨0x21⟩)
      = sidePositions 3 .west (samples 3 4 ⟨1 / 2 + 4, -3⟩ 3) (Mesh.indices 3 ⟨0x100⟩) ∧
    sideSegments 9 .east (samples 3 4 ⟨1 / 2, -3⟩ 9) (Mesh.indices 9 ⟨0x21⟩)
      = sideSegments 3 .west (samples 3 4 ⟨1 / 2 + 4, -3⟩ 3) (Mesh.indices 3 ⟨0x100⟩) := by
  have hm : ((5 - 1 : Nat) : ℚ) * 4 / 2 ^ ((1 : UInt8).toNat + 2) = (2 : Nat) := by
    decide +kernel
  have hn : intervals 5 (4 : ℚ) 1 + 1 ≤ 65536 := by decide +kernel
  have hdA : (Seams.delta ⟨0x21⟩ .east).toNat = 2 := by decide
  have hdB : Seams.delta ⟨0x100⟩ .west = 0 := by decide
  have hA : resolution 5 (4 : ℚ) 1 = .ok 9 :=
    resolution_eq (k := 8) (by decide) (by decide +kernel) (by decide)
  have hB : resolution 5 (4 : ℚ) 3 = .ok 3 :=
    resolution_eq (k := 2) (by decide) (by decide +kernel) (by decide)
  obtain ⟨nA, nB, eA, eB, hpos, hseg⟩ := seamless (b := 3) 3 ⟨1 / 2, -3⟩ (by decide)
    (by decide) (by decide) hm hn hdA hdB
  cases Except.ok.inj (hA.symm.trans eA)
  cases Except.ok.inj (hB.symm.trans eB)
  exact ⟨by decide, by decide, by decide, hm, hn, hdA, hdB, hA, hB, hpos, hseg⟩

end

end TerrainPatches
