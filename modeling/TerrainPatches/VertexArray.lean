import TerrainPatches.Device
import TerrainPatches.Fault
import TerrainPatches.Point

/-!
# Vertex arrays

One attribute of every vertex of a patch, with its slot on the device.  An array belongs to one
patch alone; another patch gets a deep copy, which has the same elements and a slot of its own,
so that nothing of it is resident.
-/

namespace TerrainPatches

structure Rgba8 where
  r : UInt8
  g : UInt8
  b : UInt8
  a : UInt8
deriving DecidableEq

/-- elements of a fixed size on the device -/
class Packed (α : Type) where
  byteSize : Nat

instance : Packed (Point2 Float32) := ⟨8⟩
instance : Packed (Point3 Float32) := ⟨12⟩
instance : Packed Rgba8 := ⟨4⟩

structure VertexArray (α : Type) where
  slot : ObjectId
  elements : List α

namespace VertexArray

variable {α : Type}

/-- an array of these elements with a slot of its own -/
def ofList (elements : List α) (supply : Supply) : VertexArray α × Supply :=
  (⟨supply.fresh.1, elements⟩, supply.fresh.2)

def deepCopy (a : VertexArray α) (supply : Supply) : VertexArray α × Supply :=
  ofList a.elements supply

def length (a : VertexArray α) : Nat := a.elements.length

/-- the element at `i` replaced; what is resident of the array is stale from then on -/
def set (a : VertexArray α) (i : Nat) (e : α) : Except Fault (VertexArray α) :=
  if i < a.length then .ok { a with elements := a.elements.set i e } else .error .indexOutOfRange

def upload [Packed α] (a : VertexArray α) : Upload :=
  ⟨a.slot, Packed.byteSize α * a.length, false⟩

end VertexArray

end TerrainPatches
