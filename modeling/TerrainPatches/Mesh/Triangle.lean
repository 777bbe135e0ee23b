import TerrainPatches.Grid

/-!
# Triangles on a grid

A triangle is three grid points in drawing order.  `cell x y` splits the grid cell with least
corner `(x, y)` along one of its diagonals; the diagonal alternates in a diamond pattern, so that
no direction is favored.  `block` is a square block of cells, row by row.
-/

namespace TerrainPatches

structure Triangle where
  a : GridPoint
  b : GridPoint
  c : GridPoint
deriving DecidableEq

namespace Triangle

/-- the three corners in drawing order -/
def corners (t : Triangle) : List GridPoint := [t.a, t.b, t.c]

def of (ux uy vx vy wx wy : Nat) : Triangle := ⟨⟨ux, uy⟩, ⟨vx, vy⟩, ⟨wx, wy⟩⟩

end Triangle

namespace Mesh

/-- whether a cell is split along its falling diagonal -/
def falling (x y : Nat) : Bool := (y + x % 2) % 2 == 1

def cell (x y : Nat) : List Triangle :=
  if falling x y then
    [.of (x + 1) y (x + 1) (y + 1) x (y + 1), .of x y (x + 1) y x (y + 1)]
  else
    [.of x y (x + 1) (y + 1) x (y + 1), .of x y (x + 1) y (x + 1) (y + 1)]

theorem length_cell (x y : Nat) : (cell x y).length = 2 := by
  unfold cell
  split <;> rfl

/-- all cells with both coordinates from `lo` up to but not including `lo + k` -/
def block (lo k : Nat) : List Triangle :=
  (List.range' lo k).flatMap fun y => (List.range' lo k).flatMap fun x => cell x y

end Mesh

end TerrainPatches
