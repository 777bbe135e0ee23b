import TerrainPatches.Point

/-!
# Textured quads

A quad is spanned from a corner by two plane vectors, at height 0.  Its four vertices carry the
corners of the texture, whose origin is at the quad's own corner, and its two triangles share the
diagonal from the first vertex to the third.
-/

namespace TerrainPatches

structure Quad (α : Type) where
  positions : List (Point3 α)
  texCoords : List (Point2 α)
  indices : List UInt16

namespace Quad

variable {α : Type} [Scalar α]

/-- the quad from `corner` along `width` and `height` -/
def spanned (corner width height : Point2 α) : Quad α where
  positions := [corner + height, corner, corner + width, corner + width + height].map
    fun p => p.lift Scalar.zero
  texCoords := [⟨Scalar.zero, Scalar.one⟩, ⟨Scalar.zero, Scalar.zero⟩,
    ⟨Scalar.one, Scalar.zero⟩, ⟨Scalar.one, Scalar.one⟩]
  indices := [0, 1, 2, 2, 3, 0]

/-- the upright quad from `corner` over `size` -/
def upright (corner size : Point2 α) : Quad α :=
  spanned corner ⟨size.x, Scalar.zero⟩ ⟨Scalar.zero, size.y⟩

end Quad

end TerrainPatches
