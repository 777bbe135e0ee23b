import TerrainPatches.Fault
import TerrainPatches.FloatParts
import TerrainPatches.Resolution
import TerrainPatches.TexRect

/-!
# The quadtree over a patch

A large patch is quartered until every square is at most `maxSize` cells wide.  A square knows
the part of the texture that it covers; its quarters lie in the directions of the rectangle's
quadrants, a quarter of its size from its center.

* `tree`    the leaves by recursion, in depth-first order, to a given depth;
* `drain`   the same leaves from a work list, the first square on top, refusing a square that is
            deeper than `limit`;
* `leaves`  the work list started at a whole patch, with the depth that the ratio of the sizes
            calls for: the binary logarithm rounded up, and one more for what it may be off by.

The logarithm is an argument of `leaves`: all that matters of it is that it is off by less than
one.  `split` uses `log2Up`.
-/

namespace TerrainPatches

/-- a square of a patch, in cells, and the part of the texture it covers -/
structure Square (α : Type) where
  size : α
  center : Point2 α
  rect : TexRect α
deriving DecidableEq

namespace Square

variable {α : Type} [Scalar α]

/-- the square covering a whole texture -/
def whole (size : α) (center : Point2 α) : Square α := ⟨size, center, .unit⟩

/-- the four quarters -/
def quarters (s : Square α) : List (Square α) :=
  s.rect.quadrants.map fun q =>
    ⟨s.size / Scalar.two, s.center + q.1.scale (s.size / Scalar.four), q.2⟩

theorem length_quarters (s : Square α) : s.quarters.length = 4 := rfl

end Square

namespace Quadtree

variable {α : Type} [Scalar α]

/-! ## the leaves by recursion -/

/-- the leaves of a square, at most `depth` quarterings down -/
def tree (maxSize : α) : Nat → Square α → List (Square α)
  | 0, s => [s]
  | depth + 1, s => if maxSize < s.size then s.quarters.flatMap (tree maxSize depth) else [s]

theorem tree_succ (maxSize : α) (depth : Nat) (s : Square α) :
    tree maxSize (depth + 1) s =
      if maxSize < s.size then s.quarters.flatMap (tree maxSize depth) else [s] := rfl

/-! ## the leaves from a work list -/

/-- what a square at depth `d` can still cost -/
def weight (limit d : Nat) : Nat := Nat.pow 5 (limit + 1 - d)

theorem four_mul_weight_lt {limit d : Nat} (h : d ≤ limit) :
    4 * weight limit (d + 1) < weight limit d := by
  have e : limit + 1 - d = (limit + 1 - (d + 1)) + 1 := by omega
  have s : Nat.pow 5 (limit + 1 - (d + 1) + 1) = Nat.pow 5 (limit + 1 - (d + 1)) * 5 := rfl
  have : 0 < Nat.pow 5 (limit + 1 - (d + 1)) := Nat.pow_pos (by omega)
  simp only [weight, e, s]
  omega

theorem weight_pos (limit d : Nat) : 0 < weight limit d := Nat.pow_pos (by omega)

/-- what a work list can still cost -/
def cost (limit : Nat) : List (Square α × Nat) → Nat
  | [] => 0
  | (_, d) :: ws => weight limit d + cost limit ws

/-- empties a work list of squares and their depths, top first, into the leaves found so far -/
def drain (limit : Nat) (maxSize : α) :
    (work : List (Square α × Nat)) → (found : List (Square α)) → Except Fault (List (Square α))
  | [], found => .ok found.reverse
  | (s, d) :: rest, found =>
    if limit < d then .error .depthExceeded
    else if maxSize < s.size then
      drain limit maxSize (s.quarters.map (fun q => (q, d + 1)) ++ rest) found
    else drain limit maxSize rest (s :: found)
termination_by work => cost limit work
decreasing_by
  · have h := @four_mul_weight_lt limit d (by omega)
    simp only [Square.quarters, TexRect.quadrants, List.map_cons, List.map_nil, List.cons_append,
      List.nil_append, cost]
    omega
  · have := weight_pos limit d
    simp only [cost]
    omega

/-! ## the whole patch -/

/-- how deep a patch may be quartered, from the ratio of its size to the greatest leaf -/
def depthLimit (log2 : α → α) (ratio : α) : Except Fault Nat :=
  let k := Scalar.ceilNat (log2 ratio)
  if k + 1 < countLimit then .ok (k + 1) else .error .depthOverflow

/-- the leaves of a patch, in depth-first order -/
def leaves (log2 : α → α) (size : α) (center : Point2 α) (maxSize : α) :
    Except Fault (List (Square α)) :=
  if ¬ Scalar.zero < maxSize then .error .limitNotPositive
  else if !Scalar.finite size then .error .sizeNotFinite
  else match depthLimit log2 (size / maxSize) with
    | .error e => .error e
    | .ok limit => drain limit maxSize [(.whole size center, 0)] []

/-- the leaves of a patch in single precision -/
def split (size : Float32) (center : Point2 Float32) (maxSize : Float32) :
    Except Fault (List (Square Float32)) :=
  leaves log2Up size center maxSize

end Quadtree

end TerrainPatches
