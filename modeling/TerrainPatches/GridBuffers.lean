import TerrainPatches.Grid
import TerrainPatches.Mesh.Indices
import TerrainPatches.VertexArray

/-!
# Shared index and texture coordinate buffers

Texture coordinates depend on the resolution of a grid alone, and indices on the resolution and
the edge bits of the seams.  So every grid of one kind can use one buffer.  `GridBuffers` makes a
buffer when it is first asked for and gives the same object from then on.

Forgetting the buffers (`clear`) leaves those in use as they are, also on the device; releasing
them from the device (`slots`) leaves them in the cache, to be uploaded again.
-/

namespace TerrainPatches

structure IndexBuffer where
  resolution : Nat
  edgeBits : UInt16
  indices : Indices

structure UvBuffer where
  resolution : Nat
  uvs : List (Point2 Float32)

namespace IndexBuffer

def build (n : Nat) (seams : Seams) : IndexBuffer := ⟨n, seams.edgeBits, Mesh.indices n seams⟩

def vertexCount (b : IndexBuffer) : Nat := b.resolution * b.resolution

/-- the seams the indices are stitched for -/
def seams (b : IndexBuffer) : Seams := .ofEdgeBits b.edgeBits

end IndexBuffer

def UvBuffer.build (n : Nat) : UvBuffer := ⟨n, Grid.uvs n⟩

def Shared.indexUpload (b : Shared IndexBuffer) : Upload := ⟨b.id, b.val.indices.byteSize, false⟩

def Shared.uvUpload (b : Shared UvBuffer) : Upload :=
  ⟨b.id, Packed.byteSize (Point2 Float32) * b.val.uvs.length, false⟩

structure GridBuffers where
  index : List (Shared IndexBuffer)
  uv : List (Shared UvBuffer)

namespace GridBuffers

def empty : GridBuffers := ⟨[], []⟩

def findIndex? (b : GridBuffers) (n : Nat) (edgeBits : UInt16) : Option (Shared IndexBuffer) :=
  b.index.find? fun s => s.val.resolution == n && s.val.edgeBits == edgeBits

def findUv? (b : GridBuffers) (n : Nat) : Option (Shared UvBuffer) :=
  b.uv.find? fun s => s.val.resolution == n

def indexBuffer (b : GridBuffers) (n : Nat) (seams : Seams) (supply : Supply) :
    Shared IndexBuffer × GridBuffers × Supply :=
  match b.findIndex? n seams.edgeBits with
  | some s => (s, b, supply)
  | none =>
    let made := supply.share (IndexBuffer.build n seams)
    (made.1, { b with index := made.1 :: b.index }, made.2)

def uvBuffer (b : GridBuffers) (n : Nat) (supply : Supply) :
    Shared UvBuffer × GridBuffers × Supply :=
  match b.findUv? n with
  | some s => (s, b, supply)
  | none =>
    let made := supply.share (UvBuffer.build n)
    (made.1, { b with uv := made.1 :: b.uv }, made.2)

def slots (b : GridBuffers) : List ObjectId := b.index.map (·.id) ++ b.uv.map (·.id)

end GridBuffers

end TerrainPatches
