import TerrainPatches.Fault
import TerrainPatches.Point
import TerrainPatches.Texture
import TerrainPatches.VertexArray

/-!
# Sources: where terrain comes from

A source answers what is asked of it by functions of the question alone: asked twice for the
same patch, it gives the same data.  What is missing is empty data; a fault arises only where the
question itself has no answer.

Questions are counted by kind (`Requests`); each is asked through one function here, which is
where it is counted.
-/

namespace TerrainPatches

/-- a texture layer, its textures named by path -/
structure LayerSpec where
  diffuse : String
  normal : Option String
  parallax : Bool
  specular : Bool
deriving DecidableEq

/-- plain texturing does not suffice for the layer -/
def LayerSpec.needsShaders (l : LayerSpec) : Bool := l.normal.isSome || l.parallax || l.specular

/-- the layers of a patch, bottom to top, and the images that weight each layer after the first
over the ones below it -/
structure LayerStack where
  layers : List LayerSpec
  images : List GrayImage

/-- the vertices of a patch, in the order of its grid -/
structure Vertices where
  positions : List (Point3 Float32)
  normals : List (Point3 Float32)
  colors : List Rgba8

/-- a square of terrain, in cells; its center is a number, without the pattern of a request -/
structure Place where
  size : Float32
  center : Point2 Float32
  world : UInt64

structure Source where
  /-- every `2 ^ level`-th vertex of a place; `baked` if it will be drawn with a composite -/
  vertices : (level : UInt8) → Place → (baked : Bool) → Except Fault Vertices
  /-- the vertex colors of a tile of a composite -/
  tileColors : (level : UInt8) → Place → Except Fault (List Rgba8)
  layers : Place → LayerStack
  /-- how often the layer textures repeat across a patch of this size -/
  tiling : Float32 → Float32
  /-- the vertices along a cell edge at level 0 -/
  cellVertices : (world : UInt64) → Nat
  /-- the length of a cell edge in world units -/
  cellWorldSize : (world : UInt64) → Float32

/-! ## counted questions -/

/-- how often each kind of data was asked for -/
structure Requests where
  vertices : Nat
  tileColors : Nat
  layers : Nat

namespace Requests

def none : Requests := ⟨0, 0, 0⟩

def askVertices (r : Requests) (source : Source) (level : UInt8) (place : Place) (baked : Bool) :
    Except Fault (Vertices × Requests) :=
  match source.vertices level place baked with
  | .error f => .error f
  | .ok v => .ok (v, { r with vertices := r.vertices + 1 })

def askTileColors (r : Requests) (source : Source) (level : UInt8) (place : Place) :
    Except Fault (List Rgba8 × Requests) :=
  match source.tileColors level place with
  | .error f => .error f
  | .ok cs => .ok (cs, { r with tileColors := r.tileColors + 1 })

def askLayers (r : Requests) (source : Source) (place : Place) : LayerStack × Requests :=
  (source.layers place, { r with layers := r.layers + 1 })

end Requests

end TerrainPatches
