import TerrainPatches.Fault
import TerrainPatches.Scalar

/-!
# Grid resolution: how many vertices a patch has along one edge

A full cell has `cellVertices` vertices along an edge at level 0.  A patch of `size` cells at
`level` keeps every `2 ^ level`-th of them, so it has `(cellVertices - 1) * size / 2 ^ level`
intervals, rounded toward zero, and one vertex more.  A patch shorter than one interval has a
single vertex.
-/

namespace TerrainPatches

/-- counts stay below `2 ^ 32` -/
def countLimit : Nat := 4294967296

/-- the number of whole intervals along an edge -/
def intervals {α : Type} [Scalar α] (cellVertices : Nat) (size : α) (level : UInt8) : Nat :=
  Scalar.toNat (Scalar.ofNat (cellVertices - 1) * size / Scalar.twoPow level.toNat)

/-- the number of vertices along an edge -/
def resolution {α : Type} [Scalar α] (cellVertices : Nat) (size : α) (level : UInt8) :
    Except Fault Nat :=
  if cellVertices < 2 then .error .tooFewCellVertices
  else if intervals cellVertices size level + 1 < countLimit then
    .ok (intervals cellVertices size level + 1)
  else .error .resolutionOverflow

theorem resolution_eq_ok {α : Type} [Scalar α] {cellVertices n : Nat} {size : α} {level : UInt8}
    (h : resolution cellVertices size level = .ok n) :
    2 ≤ cellVertices ∧ n = intervals cellVertices size level + 1 ∧ n < countLimit := by
  unfold resolution at h
  split at h
  · cases h
  · split at h
    · cases h
      exact ⟨by omega, rfl, by assumption⟩
    · cases h

end TerrainPatches
