import TerrainPatches.Device
import TerrainPatches.Fault

/-!
# Textures

A texture is its shape, its texels and how it is sampled; it never changes.  One without texels
is a render target, whose contents are made on the device.

* `Texture.layer`     repeats across a patch: the textures of terrain layers;
* `Texture.blendMap`  is clamped, so that layers do not bleed across the border of a patch;
* `Texture.target`    an empty square to bake a composite into.
-/

namespace TerrainPatches

inductive TexelFormat where
  | luma8
  | rgb8
  | rgba8
deriving DecidableEq

def TexelFormat.byteSize : TexelFormat → Nat
  | .luma8 => 1
  | .rgb8 => 3
  | .rgba8 => 4

inductive TexelFilter where
  | nearest
  | linear
deriving DecidableEq

inductive TexelWrap where
  | tile
  | clamp
deriving DecidableEq

structure GrayImage where
  width : Nat
  height : Nat
  pixels : List UInt8
deriving DecidableEq

structure Texture where
  width : Nat
  height : Nat
  format : TexelFormat
  filter : TexelFilter
  wrap : TexelWrap
  texels : Option (List UInt8)
deriving DecidableEq

namespace Texture

def layer (width height : Nat) (format : TexelFormat) (texels : List UInt8) : Texture :=
  ⟨width, height, format, .linear, .tile, some texels⟩

/-- a layer texture whose texels fill it exactly -/
def ofTexels (width height : Nat) (format : TexelFormat) (texels : List UInt8) :
    Except Fault Texture :=
  if texels.length = width * height * format.byteSize then .ok (layer width height format texels)
  else .error .texelCountMismatch

def blendMap (image : GrayImage) : Texture :=
  ⟨image.width, image.height, .luma8, .linear, .clamp, some image.pixels⟩

def target (size : Nat) : Texture := ⟨size, size, .rgb8, .linear, .clamp, none⟩

def isTarget (t : Texture) : Bool := t.texels.isNone

def byteSize (t : Texture) : Nat := (t.texels.map List.length).getD 0

theorem isTarget_blendMap (image : GrayImage) : (blendMap image).isTarget = false := rfl

end Texture

/-- what there is to upload for a texture -/
def Shared.textureUpload (t : Shared Texture) : Upload := ⟨t.id, t.val.byteSize, true⟩

end TerrainPatches
