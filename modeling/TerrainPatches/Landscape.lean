import TerrainPatches.Bakery
import TerrainPatches.ExpiringCache
import TerrainPatches.Patch
import TerrainPatches.Workshop

/-!
# The landscape: patches on request

A landscape builds the patches of one world and keeps them cached until they expire.  A request
is answered in three steps:

* the cached patch with exactly the key that was asked for;
* else a copy of a cached patch with the same center and level but other seams: its vertex arrays
  are copied, its passes and its composite are shared;
* else a patch sampled from the source.

Patches at least `Settings.bakedFrom` cells large are drawn with one baked composite, smaller
ones layer by layer.  A sampled patch may be put into the upload queue, which spreads uploads over
frames; a copy never is, since what it shares has been queued with the patch it was copied from.

A patch is in use from outside while a name holds it and while it waits for its upload, each time
it was put there (`outside`).

The state is everything a later answer can depend on: besides the cache and the workshop, the
bakery with the device, the upload queue and the holders.
-/

namespace TerrainPatches

/-- how the requests for patches were answered -/
structure BuildCounts where
  hits : Nat
  copies : Nat
  sampled : Nat
  composites : Nat

/-- the counts at one frame -/
structure FrameReport where
  frame : Nat
  cached : Nat
  counts : BuildCounts

/-- what is asked for: a square of terrain at a level, stitched to its neighbours -/
structure PatchRequest where
  size : Float32
  center : Point2 Pattern
  level : UInt8
  seams : Seams
  /-- put a sampled patch into the upload queue -/
  uploadSoon : Bool

/-- a vertex level in the seams stands in for the level asked for -/
def PatchRequest.key (r : PatchRequest) : PatchKey :=
  ⟨r.center, r.seams.effectiveLevel r.level, r.seams⟩

structure Landscape where
  site : Site
  settings : Settings
  /-- vertices along a cell edge, as the source said when the landscape was made -/
  cellVertices : Nat
  /-- stamped on every patch built from now on -/
  nodeMask : UInt32
  cache : ExpiringCache PatchKey Patch
  workshop : Workshop
  counts : BuildCounts
  /-- patches that wait for their upload, if the scene spreads uploads -/
  uploadQueue : Option (List (Shared Patch))
  bakery : Bakery
  holders : Holders Patch

namespace Landscape

/-! ## setting up -/

/-- a landscape with nothing built, if its settings can be used -/
def create (source : Source) (scene : Scene) (queue : BakeQueue) (settings : Settings) :
    Except SetupError Landscape :=
  match settings.check with
  | .error e => .error (.setting e)
  | .ok () =>
    let site : Site := ⟨source, scene, settings.world⟩
    match settings.checkCell site.cellVertices with
    | .error e => .error e
    | .ok () => .ok
      { site
        settings
        cellVertices := site.cellVertices
        nodeMask := settings.nodeMask
        cache := .empty settings.expiry
        workshop := .initial
        counts := ⟨0, 0, 0, 0⟩
        uploadQueue := if scene.queuesUploads then some [] else none
        bakery := .ofQueue queue
        holders := .nobody }

def setNodeMask (l : Landscape) (mask : UInt32) : Landscape := { l with nodeMask := mask }

/-! ## the vertices of a patch -/

structure Shape where
  positions : VertexArray (Point3 Float32)
  normals : VertexArray (Point3 Float32)
  colors : VertexArray Rgba8

/-- arrays with slots of their own for these vertices -/
def shapeOf (w : Workshop) (v : Vertices) : Shape × Workshop :=
  let (positions, w) := w.vertexArray v.positions
  let (normals, w) := w.vertexArray v.normals
  let (colors, w) := w.vertexArray v.colors
  (⟨positions, normals, colors⟩, w)

def verticesOf (p : Patch) : Vertices :=
  ⟨p.positions.elements, p.normals.elements, p.colors.elements⟩

/-- the vertices of a new patch: those of the patch it is copied from, or new samples -/
def shape (l : Landscape) (r : PatchRequest) (sibling : Option (Shared Patch)) (baked : Bool) :
    Except Fault (Shape × Landscape) :=
  match sibling with
  | some p =>
    let (s, workshop) := shapeOf l.workshop (verticesOf p.val)
    .ok (s, { l with workshop, counts := { l.counts with copies := l.counts.copies + 1 } })
  | none => do
    let place := l.site.place r.size r.center.number
    let (v, requests) ← l.workshop.requests.askVertices l.site.source r.key.level place baked
    let (s, workshop) := shapeOf { l.workshop with requests } v
    return (s, { l with workshop, counts := { l.counts with sampled := l.counts.sampled + 1 } })

/-! ## the passes of a patch -/

/-- how a patch is painted -/
structure Skin where
  passes : Shared (List Pass)
  composite : Option (Shared Composite)

/-- a composite offered to the bakery, and the pass that draws it -/
def bakedSkin (l : Landscape) (r : PatchRequest) : Except Fault (Skin × Landscape) := do
  let (target, w) := l.workshop.share (Texture.target l.settings.textureSize)
  let (composite, w) ← w.composite l.site l.settings.maxTileSize r.size r.center.number target
  let (composite, w) := w.share composite
  let (passes, w) := w.share (Workshop.bakedPasses l.site.scene target)
  return (⟨passes, some composite⟩, { l with
    workshop := w
    counts := { l.counts with composites := l.counts.composites + 1 }
    bakery := l.bakery.offer composite })

def layeredSkin (l : Landscape) (r : PatchRequest) : Skin × Landscape :=
  let (passes, w) := l.workshop.passes l.site (l.site.place r.size r.center.number) false
  let (passes, w) := w.share passes
  (⟨passes, none⟩, { l with workshop := w })

/-- how a new patch is painted: like the patch it is copied from, or by its size -/
def skin (l : Landscape) (r : PatchRequest) (sibling : Option (Shared Patch)) (baked : Bool) :
    Except Fault (Skin × Landscape) :=
  match sibling with
  | some p => .ok (⟨p.val.passes, p.val.composite⟩, l)
  | none => if baked then l.bakedSkin r else .ok (l.layeredSkin r)

/-! ## requests -/

def isBaked (l : Landscape) (size : Float32) : Bool := decide (l.settings.bakedFrom ≤ size)

def build (l : Landscape) (r : PatchRequest) (sibling : Option (Shared Patch)) :
    Except Fault (Patch × Landscape) := do
  let baked := l.isBaked r.size
  let (shape, l) ← l.shape r sibling baked
  let n ← resolution l.cellVertices r.size r.key.level
  let (indices, w) := l.workshop.indexBuffer n r.seams
  let (uvs, w) := w.uvBuffer n
  if indices.val.vertexCount ≠ shape.positions.length then throw .vertexCountMismatch
  let (skin, l) ← { l with workshop := w }.skin r sibling baked
  return (
    { key := r.key
      size := r.size
      positions := shape.positions
      normals := shape.normals
      colors := shape.colors
      indices
      uvs
      uvSets := if baked then 1 else 2
      passes := skin.passes
      composite := skin.composite
      ownLights := decide (r.size ≤ Scalar.one)
      waterMargin := r.size * l.site.source.cellWorldSize l.settings.world / Scalar.ofNat n
      nodeMask := l.nodeMask
      copied := sibling.isSome }, l)

/-- the cached patch to copy for this sample: the one whose seams are the greatest -/
def sibling? (l : Landscape) (s : SampleKey) : Option (Shared Patch) :=
  match l.cache.lowerBound s.last with
  | some e => if s.isSampleOf e.key then some e.object else none
  | none => none

/-- puts a patch at the end of the upload queue, if there is one -/
def enqueue (l : Landscape) (p : Shared Patch) : Landscape :=
  { l with uploadQueue := l.uploadQueue.map (· ++ [p]) }

/-- the cached patch for a request -/
def hit (l : Landscape) (p : Shared Patch) : Shared Patch × Landscape :=
  (p, { l with counts := { l.counts with hits := l.counts.hits + 1 } })

/-- a new patch for a request, cached at `now` -/
def miss (l : Landscape) (r : PatchRequest) (now : Nat) :
    Except Fault (Shared Patch × Landscape) := do
  let sibling := l.sibling? r.key.sample
  let (patch, l) ← l.build r sibling
  let (p, workshop) := l.workshop.share patch
  let l := { l with workshop }
  let l := if r.uploadSoon && sibling.isNone then l.enqueue p else l
  return (p, { l with cache := l.cache.insert r.key p now })

def get (l : Landscape) (r : PatchRequest) (now : Nat) : Except Fault (Shared Patch × Landscape) :=
  match l.cache.get? r.key with
  | some p => .ok (l.hit p)
  | none => l.miss r now

def report (l : Landscape) (frame : Nat) : FrameReport := ⟨frame, l.cache.size, l.counts⟩

/-! ## holding and forgetting -/

def hold (l : Landscape) (name : String) (p : Shared Patch) : Landscape :=
  { l with holders := l.holders.hold name p }

def drop (l : Landscape) (name : String) : Landscape :=
  { l with holders := l.holders.drop name }

/-- how often a patch is used from outside the cache -/
def outside (l : Landscape) (id : ObjectId) : Nat :=
  l.holders.count id + (l.uploadQueue.getD []).countP fun p => p.id == id

/-- forgets the cached patches that have expired; how many -/
def update (l : Landscape) (now : Nat) : Nat × Landscape :=
  ((l.cache.evict l.outside now).1, { l with cache := (l.cache.evict l.outside now).2 })

/-- forgets all cached patches, shared buffers and grids of tiles; what is in use stays as it is -/
def clear (l : Landscape) : Landscape :=
  { l with
    cache := l.cache.clear
    workshop := l.workshop.clearBuffers.clearTileGrids }

/-! ## the device -/

/-- uploads all that drawing a patch needs; how many handles were created -/
def compile (l : Landscape) (p : Shared Patch) : Nat × Landscape :=
  ((l.bakery.uploadAll p.val.uploads).1,
    { l with bakery := (l.bakery.uploadAll p.val.uploads).2 })

def compileAll (l : Landscape) : List (Shared Patch) → Landscape
  | [] => l
  | p :: ps => (l.compile p).2.compileAll ps

/-- compiles the first patches of the upload queue, at most `limit`; how many, or nothing without
a queue -/
def compileQueued (l : Landscape) (limit : Nat) : Option Nat × Landscape :=
  match l.uploadQueue with
  | none => (none, l)
  | some q => (some (q.take limit).length,
      { l with uploadQueue := some (q.drop limit) }.compileAll (q.take limit))

/-- releases all that belongs to some patches, and their composites have to be baked again -/
def releasePatches (b : Bakery) (ps : List (Shared Patch)) : Nat × Bakery :=
  let released := b.releaseAll (ps.flatMap fun p => p.val.slots)
  (released.1, released.2.markUnbaked (ps.flatMap fun p => p.val.compositeIds))

def releasePatch (l : Landscape) (p : Shared Patch) : Nat × Landscape :=
  ((releasePatches l.bakery [p]).1, { l with bakery := (releasePatches l.bakery [p]).2 })

def releaseBuffers (l : Landscape) : Nat × Landscape :=
  let released := l.bakery.releaseAll l.workshop.buffers.slots
  (released.1, { l with bakery := released.2 })

def releaseTileGrids (l : Landscape) : Nat × Landscape :=
  let released := l.bakery.releaseAll l.workshop.tileGridSlots
  (released.1, { l with bakery := released.2 })

/-- releases everything cached, without forgetting any of it; how many handles were deleted -/
def release (l : Landscape) : Nat × Landscape :=
  let patches := releasePatches l.bakery l.cache.objects
  let buffers := { l with bakery := patches.2 }.releaseBuffers
  let grids := buffers.2.releaseTileGrids
  (patches.1 + buffers.1 + grids.1, grids.2)

/-! ## bakes -/

/-- asks for the bake of a patch's composite before the patch is drawn; whether it was needed -/
def requestBake (l : Landscape) (p : Shared Patch) : Bool × Landscape :=
  match p.val.composite with
  | none => (false, l)
  | some c =>
    if l.bakery.isBaked c then (false, l)
    else (true, { l with bakery := { l.bakery with queue := l.bakery.queue.addUrgent c } })

def renderFrame (l : Landscape) : FrameStats × Landscape :=
  (l.bakery.renderFrame.1, { l with bakery := l.bakery.renderFrame.2 })

end Landscape

end TerrainPatches
