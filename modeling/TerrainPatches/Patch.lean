import TerrainPatches.Composite
import TerrainPatches.PatchKey

/-!
# Patches: terrain ready to be drawn

The vertex arrays of a patch are its own.  Its index and texture coordinate buffers, its passes
and its composite may be those of other patches too.

A patch drawn with a composite samples one texture and needs one set of texture coordinates; one
drawn layer by layer needs a second set for its blend maps.  Both sets are the same buffer.
-/

namespace TerrainPatches

structure Patch where
  key : PatchKey
  /-- in cells -/
  size : Float32
  positions : VertexArray (Point3 Float32)
  normals : VertexArray (Point3 Float32)
  colors : VertexArray Rgba8
  indices : Shared IndexBuffer
  uvs : Shared UvBuffer
  /-- the number of texture coordinate sets -/
  uvSets : Nat
  passes : Shared (List Pass)
  composite : Option (Shared Composite)
  /-- small enough to be lit by its own lights -/
  ownLights : Bool
  /-- one grid interval in world units: how far around the patch water still matters -/
  waterMargin : Float32
  nodeMask : UInt32
  /-- its vertices were copied from another patch and not sampled -/
  copied : Bool

namespace Patch

def textures (p : Patch) : List (Shared Texture) := p.passes.val.flatMap Pass.textures

/-- what drawing the patch needs on the device; a render target is not uploaded but baked -/
def uploads (p : Patch) : List Upload :=
  [p.positions.upload, p.normals.upload, p.colors.upload, p.indices.indexUpload, p.uvs.uvUpload] ++
    (p.textures.filter fun t => !t.val.isTarget).map Shared.textureUpload

/-- the slots released with the patch, its composite's among them; shared index and texture
coordinate buffers are released by their cache -/
def slots (p : Patch) : List ObjectId :=
  [p.positions.slot, p.normals.slot, p.colors.slot] ++ p.textures.map (·.id) ++
    p.composite.toList.flatMap fun c => c.val.slots

def compositeIds (p : Patch) : List ObjectId := p.composite.toList.map (·.id)

end Patch

end TerrainPatches
