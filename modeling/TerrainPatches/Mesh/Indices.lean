import TerrainPatches.Fault
import TerrainPatches.Mesh.Stitch

/-!
# Index lists

A triangle list is stored as the places of its corners in the grid, `x * n + y`, in the
narrowest word that can address every vertex: 16 bits up to `2 ^ 16` vertices, 32 bits beyond.
-/

namespace TerrainPatches

inductive Indices where
  | short (places : List UInt16)
  | wide (places : List UInt32)
deriving DecidableEq

namespace Indices

/-- the narrowest storage for places among this many vertices: 16 bits reach `2 ^ 16` -/
def ofList (places : List UInt32) (vertices : Nat) : Indices :=
  if vertices ≤ 65536 then .short (places.map UInt32.toUInt16) else .wide places

def length : Indices → Nat
  | .short l => l.length
  | .wide l => l.length

def isEmpty (i : Indices) : Bool := i.length == 0

/-- three places make a triangle -/
def triangleCount (i : Indices) : Nat := i.length / 3

/-- all places, widened -/
def toList : Indices → List UInt32
  | .short l => l.map UInt16.toUInt32
  | .wide l => l

def get (i : Indices) (k : Nat) : Except Fault UInt32 :=
  match i.toList[k]? with
  | some p => .ok p
  | none => .error .indexOutOfRange

def greatest (i : Indices) : Option UInt32 :=
  i.toList.foldl (fun m p => match m with
    | none => some p
    | some q => some (if q < p then p else q)) none

def byteSize : Indices → Nat
  | .short l => 2 * l.length
  | .wide l => 4 * l.length

end Indices

namespace Mesh

def place (n : Nat) (p : GridPoint) : UInt32 := UInt32.ofNat (p.x * n + p.y)

/-- the places of all corners, in drawing order -/
def places (n : Nat) (ts : List Triangle) : List UInt32 :=
  ts.flatMap fun t => t.corners.map (place n)

/-- the index list of a grid with `n` vertices per edge -/
def indices (n : Nat) (seams : Seams) : Indices :=
  .ofList (places n (triangles n seams)) (n * n)

theorem places_nil (n : Nat) : places n [] = [] := rfl

theorem length_places (n : Nat) (ts : List Triangle) : (places n ts).length = 3 * ts.length := by
  induction ts with
  | nil => rfl
  | cons t ts ih =>
    show (t.corners.map (place n) ++ places n ts).length = _
    rw [List.length_append, ih, List.length_map, List.length_cons]
    show 3 + _ = _
    omega

end Mesh

end TerrainPatches
