import TerrainPatches.Grid
import TerrainPatches.Resolution
import TerrainPatches.Source

/-!
# Flat terrain

The same terrain everywhere: height 0, white vertices, the same number of layers, each weighted
by a gray image.  The grid of a place is laid out from its least corner in equal steps, in world
units (`FlatTerrain.sample`); the formula is written for any scalars.
-/

namespace TerrainPatches

structure FlatTerrain where
  cellVertices : Nat
  cellWorldSize : Float32
  layerCount : Nat
  imageSize : Nat
  normalMaps : Bool

namespace FlatTerrain

def standard : FlatTerrain := ⟨5, Scalar.ofNat 8192, 2, 4, false⟩

/-! ## positions -/

section
variable {α : Type} [Scalar α]

/-- the world position of the least corner of a place -/
def corner (cellWorldSize size : α) (center : Point2 α) : Point2 α :=
  (center - Point2.fill (size / Scalar.two)).scale cellWorldSize

/-- the world length of one interval of a place with `n` vertices per edge -/
def step (cellWorldSize size : α) (n : Nat) : α := size * cellWorldSize / Grid.span n

def sample (cellWorldSize size : α) (center : Point2 α) (n : Nat) (p : GridPoint) : Point3 α :=
  ⟨(corner cellWorldSize size center).x + Scalar.ofNat p.x * step cellWorldSize size n,
   (corner cellWorldSize size center).y + Scalar.ofNat p.y * step cellWorldSize size n,
   Scalar.zero⟩

def samples (cellWorldSize size : α) (center : Point2 α) (n : Nat) : List (Point3 α) :=
  (Grid.points n).map (sample cellWorldSize size center n)

theorem length_samples (cellWorldSize size : α) (center : Point2 α) (n : Nat) :
    (samples cellWorldSize size center n).length = n * n := by
  rw [samples, List.length_map, Grid.length_points]

end

/-! ## the source -/

def white : Rgba8 := ⟨255, 255, 255, 255⟩

def up : Point3 Float32 := ⟨Scalar.zero, Scalar.zero, Scalar.one⟩

def vertices (t : FlatTerrain) (level : UInt8) (place : Place) : Except Fault Vertices :=
  match resolution t.cellVertices place.size level with
  | .error f => .error f
  | .ok n => .ok
    { positions := samples t.cellWorldSize place.size place.center n
      normals := List.replicate (n * n) up
      colors := List.replicate (n * n) white }

def tileColors (t : FlatTerrain) (level : UInt8) (place : Place) : Except Fault (List Rgba8) :=
  match resolution t.cellVertices place.size level with
  | .error f => .error f
  | .ok n => .ok (List.replicate (n * n) white)

def layerSpec (t : FlatTerrain) (i : Nat) : LayerSpec where
  diffuse := "textures/layer" ++ toString i ++ ".dds"
  normal := if t.normalMaps then some ("textures/layer" ++ toString i ++ "_n.dds") else none
  parallax := false
  specular := false

def image (t : FlatTerrain) : GrayImage :=
  ⟨t.imageSize, t.imageSize, List.replicate (t.imageSize * t.imageSize) 128⟩

def layers (t : FlatTerrain) : LayerStack :=
  ⟨(List.range t.layerCount).map t.layerSpec, List.replicate (t.layerCount - 1) t.image⟩

def source (t : FlatTerrain) : Source where
  vertices level place _ := t.vertices level place
  tileColors level place := t.tileColors level place
  layers _ := t.layers
  tiling size := Scalar.ofNat 16 * size
  cellVertices _ := t.cellVertices
  cellWorldSize _ := t.cellWorldSize

end FlatTerrain

end TerrainPatches
