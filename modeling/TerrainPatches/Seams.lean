/-!
# Seams: how the edges of a patch are stitched

A patch meets a neighbour on each of its four sides.  `Seams` packs into one word how many
levels coarser each neighbour is (four bits per side, from the lowest bits up: north, east,
south, west), and above these sixteen bits the patch's own vertex level, where a nonzero one
stands in for the level the patch was asked for.

Along a side with delta `d` only every `2 ^ d`-th vertex may be used, so that both patches see
the same segments.
-/

namespace TerrainPatches

/-- a side of a square patch: `south` at the least `y`, `north` at the greatest, `west` at the
least `x`, `east` at the greatest -/
inductive Side where
  | north
  | east
  | south
  | west
deriving DecidableEq

namespace Side

def all : List Side := [.north, .east, .south, .west]

def shift : Side → UInt32
  | .north => 0
  | .east => 4
  | .south => 8
  | .west => 12

end Side

structure Seams where
  bits : UInt32
deriving DecidableEq

namespace Seams

def none : Seams := ⟨0⟩

/-! ## the four sides -/

def delta (s : Seams) (side : Side) : UInt8 := ((s.bits >>> side.shift) &&& (0xf : UInt32)).toUInt8

/-- the delta of one side replaced by the low four bits of `d` -/
def withDelta (s : Seams) (side : Side) (d : UInt8) : Seams :=
  ⟨(s.bits &&& ~~~((0xf : UInt32) <<< side.shift)) |||
    ((d.toUInt32 &&& (0xf : UInt32)) <<< side.shift)⟩

/-- the bits of the four sides: all that stitching depends on -/
def edgeBits (s : Seams) : UInt16 := (s.bits &&& (0xffff : UInt32)).toUInt16

/-- some neighbour is coarser -/
def anyDelta (s : Seams) : Bool := s.edgeBits != 0

/-- the seams with these edge bits and no level of their own -/
def ofEdgeBits (b : UInt16) : Seams := ⟨b.toUInt32⟩

/-! ## the vertex level -/

def vertexLevel (s : Seams) : UInt8 := (s.bits >>> 16).toUInt8

/-- the sides kept, everything above them replaced by the level `l` -/
def withVertexLevel (s : Seams) (l : UInt8) : Seams :=
  ⟨(s.bits &&& (0xffff : UInt32)) ||| (l.toUInt32 <<< 16)⟩

/-- a nonzero vertex level stands in for the level asked for -/
def effectiveLevel (s : Seams) (asked : UInt8) : UInt8 :=
  if s.vertexLevel = 0 then asked else s.vertexLevel

/-! ## edits -/

/-- one change to the seams -/
inductive Edit where
  | delta (side : Side) (d : UInt8)
  | vertexLevel (l : UInt8)

def edit (s : Seams) : Edit → Seams
  | .delta side d => s.withDelta side d
  | .vertexLevel l => s.withVertexLevel l

def edits (s : Seams) (es : List Edit) : Seams := es.foldl edit s

theorem edits_cons (s : Seams) (e : Edit) (es : List Edit) :
    s.edits (e :: es) = (s.edit e).edits es := rfl

/-! ## text -/

/-- the five parts by name, on one line -/
def describe (s : Seams) : String :=
  let num (n : UInt8) : String := toString n.toNat
  "LodFlags \x7b north: " ++ num (s.delta .north) ++ ", east: " ++ num (s.delta .east) ++
    ", south: " ++ num (s.delta .south) ++ ", west: " ++ num (s.delta .west) ++
    ", vertex_lod: " ++ num s.vertexLevel ++ " \x7d"

end Seams

end TerrainPatches
