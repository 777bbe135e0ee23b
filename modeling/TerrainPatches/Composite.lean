import TerrainPatches.Grid
import TerrainPatches.GridBuffers
import TerrainPatches.Pass
import TerrainPatches.Quad
import TerrainPatches.Quadtree

/-!
# Composites: all layers of a patch baked into one texture

A composite is a render target and the tiles that fill it, one for each leaf of the quadtree over
the patch.  A tile draws one textured quad per layer, bottom to top, and over them a flat grid in
the tile's own vertex colors.

A tile is drawn in device coordinates, from -1 to 1 in both directions (`TexRect.frame`).  Its
grid is turned upside down there, because texture space runs against the world in `y`.

A grid depends only on where and how large it is in the texture and on the size of its tile in
cells (`TileKey`), so composites share grids.
-/

namespace TerrainPatches

/-! ## the place of a tile -/

/-- a rectangle of the texture in device coordinates -/
structure TileFrame (α : Type) where
  corner : Point2 α
  extent : Point2 α
  center : Point2 α
  /-- of the tile's grid -/
  width : α
  /-- of the tile's grid: negative, since the grid is upside down -/
  height : α

def TexRect.frame {α : Type} [Scalar α] (r : TexRect α) : TileFrame α :=
  let corner := r.minimum.scale Scalar.two - Point2.fill Scalar.one
  let extent := r.shape.scale Scalar.two
  ⟨corner, extent, corner + r.shape, extent.x, -extent.y⟩

namespace Square

variable {α : Type} [Scalar α]

/-- the quad of a layer -/
def quad (s : Square α) : Quad α := .upright s.rect.frame.corner s.rect.frame.extent

/-- the vertices of the grid of a tile, with `n` along an edge -/
def bakedGrid (n : Nat) (s : Square α) : List (Point3 α) :=
  Grid.flat n s.rect.frame.center s.rect.frame.width s.rect.frame.height

end Square

/-- what the grid of a tile depends on -/
structure TileKey where
  size : Float32
  center : Point2 Float32
  width : Float32
deriving DecidableEq

def TileKey.ofSquare (s : Square Float32) : TileKey :=
  ⟨s.size, s.rect.frame.center, s.rect.frame.width⟩

/-! ## composites -/

structure TileGrid where
  positions : VertexArray (Point3 Float32)
  uvs : Shared UvBuffer
  indices : Shared IndexBuffer

/-- one thing drawn into a composite -/
inductive Draw where
  /-- a layer, over the tile's quad; both its texture coordinate sets are the quad's -/
  | layer (quad : Quad Float32) (pass : Pass)
  /-- the vertex colors of the tile, blended over the layers -/
  | detail (grid : Shared TileGrid) (colors : VertexArray Rgba8) (blend : Blend)

structure Tile where
  square : Square Float32
  draws : List Draw

structure Composite where
  target : Shared Texture
  tiles : List Tile

namespace Draw

/-- what a bake of it needs on the device -/
def uploads : Draw → List Upload
  | .layer _ pass => pass.textures.map Shared.textureUpload
  | .detail grid colors _ => [grid.val.positions.upload, colors.upload]

def slots : Draw → List ObjectId
  | .layer _ pass => pass.textures.map (·.id)
  | .detail _ colors _ => [colors.slot]

end Draw

namespace Composite

def draws (c : Composite) : List Draw := c.tiles.flatMap (·.draws)

/-- what a bake needs on the device -/
def uploads (c : Composite) : List Upload := c.target.textureUpload :: c.draws.flatMap Draw.uploads

def slots (c : Composite) : List ObjectId := c.target.id :: c.draws.flatMap Draw.slots

end Composite

end TerrainPatches
