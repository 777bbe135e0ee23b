import TerrainPatches.Mesh.Triangle
import TerrainPatches.Seams

/-!
# Stitched triangle lists

Without any coarser neighbour, the mesh of a grid is the block of all its cells.  With one, the
outermost ring of cells is left out of the block and filled by four strips, one per side: to
stitch one side changes the corners that it shares with its two neighbours.

A strip goes along its side in segments of `stride` intervals.  Each segment is the base of one
triangle whose tip lies on the ring's inner row, and from there a fan joins the inner row to one
end of the segment.  The tip is moved away from the side that the strip's last corner belongs to,
and the fan leaves out the two inner intervals next to the corners, which the strips of the
adjacent sides fill.

`stride` is the greatest power of two that is at most `2 ^ delta` and divides the number of
intervals, so the last segment ends exactly on the corner.
-/

namespace TerrainPatches

namespace Mesh

/-! ## strides -/

/-- the greatest power of two up to `2 ^ k` that divides `intervals` -/
def powerStride (intervals : Nat) : Nat → Nat
  | 0 => 1
  | k + 1 =>
    if Nat.pow 2 (k + 1) ≤ intervals ∧ intervals % Nat.pow 2 (k + 1) = 0 then Nat.pow 2 (k + 1)
    else powerStride intervals k

/-- the number of intervals in one segment of a side with this delta -/
def stride (intervals : Nat) (delta : UInt8) : Nat := powerStride intervals (min delta.toNat 15)

theorem powerStride_pos (intervals k : Nat) : 0 < powerStride intervals k := by
  induction k with
  | zero => exact Nat.one_pos
  | succ k ih =>
    unfold powerStride
    split
    · exact Nat.two_pow_pos _
    · exact ih

theorem powerStride_dvd (intervals k : Nat) : powerStride intervals k ∣ intervals := by
  induction k with
  | zero => exact Nat.one_dvd _
  | succ k ih =>
    unfold powerStride
    split
    · exact Nat.dvd_of_mod_eq_zero (by simp_all)
    · exact ih

/-- the points at which the segments of a side begin -/
def starts (last step : Nat) : List Nat := (List.range (last / step)).map (· * step)

/-- the inner intervals that a segment's fan reaches: not the two next to the corners -/
def fanOffsets (last step start : Nat) : List Nat :=
  (List.range step).filter fun i => start + i != 0 && start + i != last - 1

/-! ## the four strips

`last` is the greatest coordinate, `s` the stride and `p` the start of a segment. -/

/-- one segment of the south side; its tip keeps off the east side -/
def southSegment (last s p : Nat) : List Triangle :=
  (if p + s = last then .of p 0 (p + s) 0 (p + s - 1) 1 else .of p 0 (p + s) 0 (p + s) 1) ::
    (fanOffsets last s p).map fun i => .of p 0 (p + i + 1) 1 (p + i) 1

/-- one segment of the north side; its tip keeps off the west side -/
def northSegment (last s p : Nat) : List Triangle :=
  (if p = 0 then .of (p + s) last p last (p + 1) (last - 1)
    else .of (p + s) last p last p (last - 1)) ::
    (fanOffsets last s p).map fun i => .of (p + i) (last - 1) (p + i + 1) (last - 1) (p + s) last

/-- one segment of the west side; its tip keeps off the north side -/
def westSegment (last s p : Nat) : List Triangle :=
  (if p + s = last then .of 0 (p + s) 0 p 1 (p + s - 1) else .of 0 (p + s) 0 p 1 (p + s)) ::
    (fanOffsets last s p).map fun i => .of 0 p 1 (p + i) 1 (p + i + 1)

/-- one segment of the east side; its tip keeps off the south side -/
def eastSegment (last s p : Nat) : List Triangle :=
  (if p = 0 then .of last p last (p + s) (last - 1) (p + 1)
    else .of last p last (p + s) (last - 1) p) ::
    (fanOffsets last s p).map fun i => .of (last - 1) (p + i + 1) last (p + s) (last - 1) (p + i)

def segment : Side → Nat → Nat → Nat → List Triangle
  | .south => southSegment
  | .north => northSegment
  | .west => westSegment
  | .east => eastSegment

def strip (last : Nat) (seams : Seams) (side : Side) : List Triangle :=
  let s := stride last (seams.delta side)
  (starts last s).flatMap (segment side last s)

/-! ## the whole mesh -/

/-- whether the grid has a ring to stitch and a neighbour to stitch it to -/
def rings (n : Nat) (seams : Seams) : Bool := seams.anyDelta && decide (3 ≤ n)

def triangles (n : Nat) (seams : Seams) : List Triangle :=
  if n < 2 then []
  else if rings n seams then
    block 1 (n - 3) ++ strip (n - 1) seams .south ++ strip (n - 1) seams .north ++
      strip (n - 1) seams .west ++ strip (n - 1) seams .east
  else block 0 (n - 1)

theorem triangles_of_lt {n : Nat} (h : n < 2) (seams : Seams) : triangles n seams = [] :=
  if_pos h

theorem triangles_of_not_rings {n : Nat} (h : 2 ≤ n) {seams : Seams}
    (hr : rings n seams = false) : triangles n seams = block 0 (n - 1) := by
  rw [triangles, if_neg (by omega), hr, if_neg Bool.false_ne_true]

theorem triangles_of_rings {n : Nat} {seams : Seams} (hr : rings n seams = true) :
    triangles n seams = block 1 (n - 3) ++ strip (n - 1) seams .south ++
      strip (n - 1) seams .north ++ strip (n - 1) seams .west ++ strip (n - 1) seams .east := by
  have h : 3 ≤ n := by
    simp only [rings, Bool.and_eq_true, decide_eq_true_eq] at hr
    exact hr.2
  rw [triangles, if_neg (by omega), hr, if_pos rfl]

end Mesh

end TerrainPatches
