import Mathlib
import TerrainPatches.Landscape

/-!
# Plans: what is built when nothing is remembered

Two objects look the same if they are the same but for identities (`bare`).  What a patch looks
like is a function of the site, the settings, its key and its size; `Plan.patch` is that function,
written without a workshop and without a cache, and the other plans are its parts.
-/

namespace TerrainPatches

/-! ## looking the same -/

section
variable {α : Type}

/-- without its identity -/
def Shared.bare (s : Shared α) : Shared α := ⟨0, s.val⟩

def VertexArray.bare (a : VertexArray α) : VertexArray α := ⟨0, a.elements⟩

end

def Layer.bare (l : Layer) : Layer :=
  { l with diffuse := l.diffuse.bare, normal := l.normal.map Shared.bare }

def Pass.bare (p : Pass) : Pass :=
  { p with
    diffuse := p.diffuse.bare
    normal := p.normal.map Shared.bare
    blendMap := p.blendMap.map Shared.bare }

def TileGrid.bare (g : TileGrid) : TileGrid := ⟨g.positions.bare, g.uvs.bare, g.indices.bare⟩

def Draw.bare : Draw → Draw
  | .layer quad pass => .layer quad pass.bare
  | .detail grid colors blend => .detail ⟨0, grid.val.bare⟩ colors.bare blend

def Tile.bare (t : Tile) : Tile := ⟨t.square, t.draws.map Draw.bare⟩

def Composite.bare (c : Composite) : Composite := ⟨c.target.bare, c.tiles.map Tile.bare⟩

def Landscape.Skin.bare (s : Landscape.Skin) : Landscape.Skin :=
  ⟨⟨0, s.passes.val.map Pass.bare⟩, s.composite.map fun c => ⟨0, c.val.bare⟩⟩

/-- without identities, without its node mask and without the mark of a copy -/
def Patch.bare (p : Patch) : Patch :=
  { p with
    positions := p.positions.bare
    normals := p.normals.bare
    colors := p.colors.bare
    indices := p.indices.bare
    uvs := p.uvs.bare
    passes := ⟨0, p.passes.val.map Pass.bare⟩
    composite := p.composite.map fun c => ⟨0, c.val.bare⟩
    nodeMask := 0
    copied := false }

namespace Pass

theorem bare_ofLayer (shaders : Bool) (scale tiling : Float32) (l : Layer) :
    (ofLayer shaders scale tiling l).bare = ofLayer shaders scale tiling l.bare := by
  cases shaders <;> rfl

theorem bare_overlay (blendMap : Option (Shared Texture)) (p : Pass) :
    (p.overlay blendMap).bare = p.bare.overlay (blendMap.map Shared.bare) := rfl

/-- which textures are drawn how does not depend on their identities -/
theorem map_bare_ofLayers (shaders : Bool) (layers : List Layer) (blendMaps : List (Shared Texture))
    (scale tiling : Float32) :
    (ofLayers shaders layers blendMaps scale tiling).map bare
      = ofLayers shaders (layers.map Layer.bare) (blendMaps.map Shared.bare) scale tiling := by
  cases layers with
  | nil => rfl
  | cons base overlays =>
    simp only [ofLayers, List.map_cons, bare_ofLayer]
    refine congrArg (_ :: ·) (List.ext_getElem? fun i => ?_)
    simp only [List.getElem?_map, List.getElem?_mapIdx, Option.map_map, Function.comp_def,
      bare_overlay, bare_ofLayer]

end Pass

/-! ## plans -/

namespace Plan

variable (site : Site)

def layer (baked : Bool) (spec : LayerSpec) : Layer where
  diffuse := ⟨0, site.scene.texture spec.diffuse⟩
  normal := if baked then none else spec.normal.map fun path => ⟨0, site.scene.texture path⟩
  parallax := spec.parallax
  specular := spec.specular

def blendMap (image : GrayImage) : Shared Texture := ⟨0, .blendMap image⟩

def passes (place : Place) (baked : Bool) : List Pass :=
  let stack := site.source.layers place
  let scale := site.source.tiling place.size
  Pass.ofLayers (Workshop.usesShaders site.scene stack.layers baked)
    (stack.layers.map (layer site baked)) (stack.images.map blendMap) scale scale

def tileGrid (s : Square Float32) : Except Fault TileGrid := do
  let n ← resolution site.cellVertices s.size 0
  return ⟨⟨0, s.bakedGrid n⟩, ⟨0, .build n⟩, ⟨0, .build n .none⟩⟩

def tile (s : Square Float32) : Except Fault Tile := do
  let grid ← tileGrid site s
  let place := site.place s.size s.center
  let colors ← site.source.tileColors 0 place
  return ⟨s, (passes site place true).map (Draw.layer s.quad) ++
    [.detail ⟨0, grid⟩ ⟨0, colors⟩ .multiply]⟩

def tiles : List (Square Float32) → Except Fault (List Tile)
  | [] => .ok []
  | s :: ss => do
    let t ← tile site s
    let ts ← tiles ss
    return t :: ts

def composite (maxTileSize size : Float32) (center : Point2 Float32) (target : Shared Texture) :
    Except Fault Composite := do
  let leaves ← Quadtree.split size center maxTileSize
  let tiles ← tiles site leaves
  return ⟨target, tiles⟩

variable (settings : Settings)

def skin (center : Point2 Float32) (size : Float32) : Except Fault Landscape.Skin :=
  if decide (settings.bakedFrom ≤ size) then do
    let target : Shared Texture := ⟨0, .target settings.textureSize⟩
    let composite ← composite site settings.maxTileSize size center target
    return ⟨⟨0, Workshop.bakedPasses site.scene target⟩, some ⟨0, composite⟩⟩
  else .ok ⟨⟨0, passes site (site.place size center) false⟩, none⟩

/-- **What a patch looks like.** -/
def patch (k : PatchKey) (size : Float32) : Except Fault Patch := do
  let baked := decide (settings.bakedFrom ≤ size)
  let v ← site.source.vertices k.level (site.place size k.center.number) baked
  let n ← resolution site.cellVertices size k.level
  if n * n ≠ v.positions.length then throw .vertexCountMismatch
  let skin ← skin site settings k.center.number size
  return {
    key := k
    size
    positions := ⟨0, v.positions⟩
    normals := ⟨0, v.normals⟩
    colors := ⟨0, v.colors⟩
    indices := ⟨0, .build n k.seams⟩
    uvs := ⟨0, .build n⟩
    uvSets := if baked then 1 else 2
    passes := skin.passes
    composite := skin.composite
    ownLights := decide (size ≤ Scalar.one)
    waterMargin := size * site.source.cellWorldSize settings.world / Scalar.ofNat n
    nodeMask := 0
    copied := false }

end Plan

end TerrainPatches
