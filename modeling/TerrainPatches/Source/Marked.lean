import TerrainPatches.Source.Flat

/-!
# Marked terrain

Flat terrain on which every answer tells what was asked: a vertex carries its number as its
height and in its color, a tile's colors carry a tag of the tile's center, and images count
their pixels up from a first value, with the tag in front.  Two answers that were mixed up show.

The tag is `trunc (4 x) + 16 * trunc (4 y)`, modulo 256, for the center `(x, y)`.
-/

namespace TerrainPatches

/-- an image whose pixels count up from `first` -/
structure CountedImage where
  width : Nat
  height : Nat
  first : Nat

structure MarkedTerrain where
  ground : FlatTerrain
  layers : List LayerSpec
  images : List CountedImage

/-- toward zero, as far as 32 bits reach, and `0` for what is not a number -/
def truncate (a : Float32) : Int := a.toInt32.toInt

namespace MarkedTerrain

/-- the low byte of a whole number -/
def lowByte (i : Int) : UInt8 := UInt8.ofNat (i % 256).toNat

def tag (center : Point2 Float32) : UInt8 :=
  lowByte (truncate (Scalar.four * center.x) + 16 * truncate (Scalar.four * center.y))

def vertices (t : MarkedTerrain) (level : UInt8) (place : Place) (baked : Bool) :
    Except Fault Vertices :=
  match t.ground.vertices level place with
  | .error f => .error f
  | .ok v => .ok { v with
      positions := v.positions.mapIdx fun i p => { p with z := Scalar.ofNat i }
      colors := v.colors.mapIdx fun i _ =>
        ⟨UInt8.ofNat i, level, place.world.toUInt8, if baked then 1 else 0⟩ }

def tileColors (t : MarkedTerrain) (level : UInt8) (place : Place) :
    Except Fault (List Rgba8) :=
  match t.ground.tileColors level place with
  | .error f => .error f
  | .ok cs => .ok (cs.mapIdx fun i _ =>
      ⟨UInt8.ofNat i, level, place.world.toUInt8, tag place.center⟩)

/-- the pixels of an image, the first one replaced by the tag -/
def image (center : Point2 Float32) (c : CountedImage) : GrayImage :=
  let pixels := (List.range (c.width * c.height)).map fun k =>
    if k = 0 then tag center else UInt8.ofNat (c.first + k)
  ⟨c.width, c.height, pixels⟩

def source (t : MarkedTerrain) : Source where
  vertices := t.vertices
  tileColors := t.tileColors
  layers place := ⟨t.layers, t.images.map (image place.center)⟩
  tiling := t.ground.source.tiling
  cellVertices := t.ground.source.cellVertices
  cellWorldSize := t.ground.source.cellWorldSize

end MarkedTerrain

end TerrainPatches
