import TerrainPatches.Point

/-!
# Square vertex grids

A grid of `n` vertices per edge lists its points column by column: the point `(x, y)` stands at
place `x * n + y` (`points_getElem?`).  Every per-vertex array is `points n` mapped by a formula
in `x` and `y`:

* `uvs`    texture coordinates, `u` growing with `x` and `v` running from 1 at the south edge to
           0 at the north edge, so that an image stored top row first appears upright;
* `flat`   positions over a rectangle around a center, at height 0.

A grid of one vertex has no interval; its coordinates are computed as if there were one.
-/

namespace TerrainPatches

structure GridPoint where
  x : Nat
  y : Nat
deriving DecidableEq

namespace Grid

/-- all points, column by column -/
def points (n : Nat) : List GridPoint :=
  (List.range n).flatMap fun x => (List.range n).map fun y => ⟨x, y⟩

/-! ## places in the list -/

theorem length_columns (n : Nat) : ∀ m : Nat,
    ((List.range m).flatMap fun x => (List.range n).map fun y => (⟨x, y⟩ : GridPoint)).length
      = m * n
  | 0 => by simp
  | m + 1 => by
    rw [List.range_succ, List.flatMap_append, List.length_append, length_columns n m]
    simp [Nat.succ_mul]

theorem length_points (n : Nat) : (points n).length = n * n := length_columns n n

theorem mem_points {n : Nat} {p : GridPoint} : p ∈ points n ↔ p.x < n ∧ p.y < n := by
  simp only [points, List.mem_flatMap, List.mem_range, List.mem_map]
  constructor
  · rintro ⟨x, hx, y, hy, rfl⟩
    exact ⟨hx, hy⟩
  · intro h
    exact ⟨p.x, h.1, p.y, h.2, rfl⟩

theorem columns_getElem? {n x y : Nat} (hy : y < n) : ∀ m : Nat, x < m →
    ((List.range m).flatMap fun x => (List.range n).map fun y => (⟨x, y⟩ : GridPoint))[x * n + y]?
      = some ⟨x, y⟩
  | 0, h => absurd h (Nat.not_lt_zero x)
  | m + 1, h => by
    rw [List.range_succ, List.flatMap_append]
    by_cases hx : x < m
    · rw [List.getElem?_append_left, columns_getElem? hy m hx]
      rw [length_columns]
      calc x * n + y < x * n + n := by omega
        _ = (x + 1) * n := (Nat.succ_mul x n).symm
        _ ≤ m * n := Nat.mul_le_mul_right n hx
    · have e : x = m := by omega
      subst e
      rw [List.getElem?_append_right (by rw [length_columns]; omega), length_columns,
        Nat.add_sub_cancel_left]
      simp [hy]

/-- the point `(x, y)` stands at place `x * n + y` -/
theorem points_getElem? {n x y : Nat} (hx : x < n) (hy : y < n) :
    (points n)[x * n + y]? = some ⟨x, y⟩ :=
  columns_getElem? hy n hx

/-! ## coordinates -/

variable {α : Type} [Scalar α]

/-- the number of intervals along an edge, at least one -/
def span (n : Nat) : α := Scalar.ofNat (max n 2 - 1)

def uv (n : Nat) (p : GridPoint) : Point2 α :=
  ⟨Scalar.ofNat p.x / span n, Scalar.ofNat (n - 1 - p.y) / span n⟩

def uvs (n : Nat) : List (Point2 α) := (points n).map (uv n)

/-- the point of the rectangle `width` by `height` around `center` at grid point `p` -/
def flatAt (n : Nat) (center : Point2 α) (width height : α) (p : GridPoint) : Point3 α :=
  ⟨(Scalar.ofNat p.x / span n - Scalar.half) * width + center.x,
   (Scalar.ofNat p.y / span n - Scalar.half) * height + center.y,
   Scalar.zero⟩

/-- positions over a rectangle; a negative height turns the grid upside down -/
def flat (n : Nat) (center : Point2 α) (width height : α) : List (Point3 α) :=
  (points n).map (flatAt n center width height)

theorem length_uvs (n : Nat) : (uvs n : List (Point2 α)).length = n * n := by
  rw [uvs, List.length_map, length_points]

end Grid

end TerrainPatches
