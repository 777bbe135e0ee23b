import TerrainPatches.Point

/-!
# Rectangles of a texture

A rectangle is its `minimum` corner and its `shape`.  Texture space runs against world space in
`y`: the quarter of a patch that lies toward larger `y` in the world is the quarter of the
texture with smaller `y`.  `quadrants` pairs each quarter of a rectangle with the direction, in
world space, in which the matching quarter of the patch lies.
-/

namespace TerrainPatches

structure TexRect (α : Type) where
  minimum : Point2 α
  shape : Point2 α
deriving DecidableEq

namespace TexRect

variable {α : Type} [Scalar α]

/-- the whole texture -/
def unit : TexRect α := ⟨Point2.fill Scalar.zero, Point2.fill Scalar.one⟩

def area (r : TexRect α) : α := r.shape.x * r.shape.y

/-- the corner opposite to `minimum` -/
def maximum (r : TexRect α) : Point2 α := r.minimum + r.shape

/-- the interiors have a point in common -/
def overlaps (r s : TexRect α) : Bool :=
  decide (r.minimum.x < s.maximum.x) && decide (s.minimum.x < r.maximum.x) &&
    decide (r.minimum.y < s.maximum.y) && decide (s.minimum.y < r.maximum.y)

/-- the four quarters, each with its direction in the world -/
def quadrants (r : TexRect α) : List (Point2 α × TexRect α) :=
  let half := r.shape.dividedBy Scalar.two
  let x := r.minimum.x
  let y := r.minimum.y
  let one : α := Scalar.one
  [ (⟨one, one⟩, ⟨⟨x + half.x, y⟩, half⟩),
    (⟨-one, one⟩, ⟨⟨x, y⟩, half⟩),
    (⟨one, -one⟩, ⟨⟨x + half.x, y + half.y⟩, half⟩),
    (⟨-one, -one⟩, ⟨⟨x, y + half.y⟩, half⟩) ]

theorem quadrants_length (r : TexRect α) : r.quadrants.length = 4 := rfl

/-- every quarter has half the shape -/
theorem shape_of_mem_quadrants (r : TexRect α) (q : Point2 α × TexRect α) (h : q ∈ r.quadrants) :
    q.2.shape = r.shape.dividedBy Scalar.two := by
  simp only [quadrants, List.mem_cons, List.not_mem_nil, or_false] at h
  rcases h with rfl | rfl | rfl | rfl <;> rfl

end TexRect

end TerrainPatches
