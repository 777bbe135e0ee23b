import TerrainPatches.Composite
import TerrainPatches.Resolution
import TerrainPatches.Scene
import TerrainPatches.Source

/-!
# The workshop: where passes and composites are put together

A workshop is what is remembered between two things built: the identities given, the questions
asked of the source, the textures made, the shared buffers and the grids of tiles.  Building
draws on a `Site`, which does not change: a source, a scene and the world that patches are
sampled from.

Each step takes the workshop and gives the workshop after it.  `passes` never fails; what samples
or quarters may have a fault.

Grids of tiles are made when first needed and given again from then on.  A tile's vertices are
always those of level 0.
-/

namespace TerrainPatches

structure Site where
  source : Source
  scene : Scene
  world : UInt64

namespace Site

def place (site : Site) (size : Float32) (center : Point2 Float32) : Place :=
  ⟨size, center, site.world⟩

def cellVertices (site : Site) : Nat := site.source.cellVertices site.world

end Site

structure Workshop where
  supply : Supply
  requests : Requests
  textures : TextureStock
  buffers : GridBuffers
  tileGrids : List (TileKey × Shared TileGrid)

namespace Workshop

def initial : Workshop := ⟨.initial, .none, .empty, .empty, []⟩

/-! ## single objects -/

def share {α : Type} (w : Workshop) (a : α) : Shared α × Workshop :=
  ((w.supply.share a).1, { w with supply := (w.supply.share a).2 })

def vertexArray {α : Type} (w : Workshop) (elements : List α) : VertexArray α × Workshop :=
  ((VertexArray.ofList elements w.supply).1,
    { w with supply := (VertexArray.ofList elements w.supply).2 })

def texture (w : Workshop) (site : Site) (path : String) : Shared Texture × Workshop :=
  let (found, textures, supply) := w.textures.acquire site.scene path w.supply
  (found, { w with textures, supply })

def indexBuffer (w : Workshop) (n : Nat) (seams : Seams) : Shared IndexBuffer × Workshop :=
  let (found, buffers, supply) := w.buffers.indexBuffer n seams w.supply
  (found, { w with buffers, supply })

def uvBuffer (w : Workshop) (n : Nat) : Shared UvBuffer × Workshop :=
  let (found, buffers, supply) := w.buffers.uvBuffer n w.supply
  (found, { w with buffers, supply })

/-! ## passes -/

/-- a layer with its textures; a layer that will be baked does without its normal map -/
def layer (w : Workshop) (site : Site) (baked : Bool) (spec : LayerSpec) : Layer × Workshop :=
  let (diffuse, w) := w.texture site spec.diffuse
  match spec.normal with
  | some path =>
    if baked then (⟨diffuse, none, spec.parallax, spec.specular⟩, w)
    else
      let (normal, w) := w.texture site path
      (⟨diffuse, some normal, spec.parallax, spec.specular⟩, w)
  | none => (⟨diffuse, none, spec.parallax, spec.specular⟩, w)

def layers (w : Workshop) (site : Site) (baked : Bool) : List LayerSpec → List Layer × Workshop
  | [] => ([], w)
  | spec :: specs =>
    let (l, w) := w.layer site baked spec
    let (ls, w) := w.layers site baked specs
    (l :: ls, w)

def blendMaps (w : Workshop) : List GrayImage → List (Shared Texture) × Workshop
  | [] => ([], w)
  | image :: images =>
    let (t, w) := w.share (Texture.blendMap image)
    let (ts, w) := w.blendMaps images
    (t :: ts, w)

/-- whether the passes of a stack use shaders: one layer that needs them turns them on for all;
what is baked never uses them, since it is seen from too far for them to show -/
def usesShaders (scene : Scene) (specs : List LayerSpec) (baked : Bool) : Bool :=
  !baked && (scene.needsShaders || specs.any LayerSpec.needsShaders)

/-- the passes of a place, bottom to top -/
def passes (w : Workshop) (site : Site) (place : Place) (baked : Bool) : List Pass × Workshop :=
  let (stack, requests) := w.requests.askLayers site.source place
  let (layers, w) := { w with requests }.layers site baked stack.layers
  let (maps, w) := w.blendMaps stack.images
  let scale := site.source.tiling place.size
  (Pass.ofLayers (usesShaders site.scene stack.layers baked) layers maps scale scale, w)

/-- the single pass that draws a baked texture -/
def bakedPasses (scene : Scene) (target : Shared Texture) : List Pass :=
  Pass.ofLayers scene.needsShaders [.plain target] [] Scalar.one Scalar.one

/-! ## tiles -/

def makeTileGrid (w : Workshop) (cellVertices : Nat) (s : Square Float32) :
    Except Fault (Shared TileGrid × Workshop) :=
  match resolution cellVertices s.size 0 with
  | .error f => .error f
  | .ok n =>
    let (positions, w) := w.vertexArray (s.bakedGrid n)
    let (uvs, w) := w.uvBuffer n
    let (indices, w) := w.indexBuffer n .none
    let (grid, w) := w.share (⟨positions, uvs, indices⟩ : TileGrid)
    .ok (grid, { w with tileGrids := (TileKey.ofSquare s, grid) :: w.tileGrids })

def tileGrid (w : Workshop) (cellVertices : Nat) (s : Square Float32) :
    Except Fault (Shared TileGrid × Workshop) :=
  match w.tileGrids.lookup (TileKey.ofSquare s) with
  | some grid => .ok (grid, w)
  | none => w.makeTileGrid cellVertices s

def tile (w : Workshop) (site : Site) (s : Square Float32) : Except Fault (Tile × Workshop) := do
  let (grid, w) ← w.tileGrid site.cellVertices s
  let place := site.place s.size s.center
  let (colors, requests) ← w.requests.askTileColors site.source 0 place
  let (passes, w) := { w with requests }.passes site place true
  let (colors, w) := w.vertexArray colors
  return (⟨s, passes.map (Draw.layer s.quad) ++ [.detail grid colors .multiply]⟩, w)

def tiles (w : Workshop) (site : Site) : List (Square Float32) → Except Fault (List Tile × Workshop)
  | [] => .ok ([], w)
  | s :: ss => do
    let (t, w) ← w.tile site s
    let (ts, w) ← w.tiles site ss
    return (t :: ts, w)

/-- the composite of a patch, to be baked into `target`; the bake itself is up to a `Bakery` -/
def composite (w : Workshop) (site : Site) (maxTileSize size : Float32) (center : Point2 Float32)
    (target : Shared Texture) : Except Fault (Composite × Workshop) := do
  let leaves ← Quadtree.split size center maxTileSize
  let (tiles, w) ← w.tiles site leaves
  return (⟨target, tiles⟩, w)

/-! ## forgetting -/

def clearBuffers (w : Workshop) : Workshop := { w with buffers := .empty }

def clearTileGrids (w : Workshop) : Workshop := { w with tileGrids := [] }

def tileGridSlots (w : Workshop) : List ObjectId := w.tileGrids.map fun e => e.2.val.positions.slot

end Workshop

end TerrainPatches
