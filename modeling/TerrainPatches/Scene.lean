import TerrainPatches.Texture

/-!
# Scenes: the lighting and the textures around a terrain

A scene says how terrain is lit and makes the texture stored at a path, as a function of the
path.  A texture asked for becomes a new object each time, unless the scene reuses textures: then
the first object made for a path is given again.  `TextureStock` counts the textures made and
remembers them by path.
-/

namespace TerrainPatches

structure Scene where
  /-- every material must use shaders -/
  forceShaders : Bool
  /-- light is clamped; unclamped light always uses shaders, so that patches with and without
  normal maps are lit alike -/
  clampLighting : Bool
  /-- the texture stored at a path -/
  texture : String → Texture
  /-- give the same object again for the same path -/
  reuseTextures : Bool
  /-- spread uploads over frames by a queue -/
  queuesUploads : Bool

namespace Scene

/-- whether the lighting alone asks for shaders -/
def needsShaders (s : Scene) : Bool := s.forceShaders || !s.clampLighting

/-- a white texel under every path -/
def blankTexture (_ : String) : Texture := .layer 1 1 .rgba8 [255, 255, 255, 255]

/-- the bytes of the path itself, as one row of gray texels -/
def spelledTexture (path : String) : Texture :=
  let bytes := path.toUTF8.toList
  .layer bytes.length 1 .luma8 bytes

end Scene

/-! ## the textures made so far -/

structure TextureStock where
  made : Nat
  byPath : List (String × Shared Texture)

namespace TextureStock

def empty : TextureStock := ⟨0, []⟩

def make (t : TextureStock) (scene : Scene) (path : String) (supply : Supply) :
    Shared Texture × TextureStock × Supply :=
  let made := supply.share (scene.texture path)
  (made.1, ⟨t.made + 1, (path, made.1) :: t.byPath⟩, made.2)

def acquire (t : TextureStock) (scene : Scene) (path : String) (supply : Supply) :
    Shared Texture × TextureStock × Supply :=
  if scene.reuseTextures then
    match t.byPath.lookup path with
    | some found => (found, t, supply)
    | none => t.make scene path supply
  else t.make scene path supply

end TextureStock

end TerrainPatches
