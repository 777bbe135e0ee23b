import TerrainPatches.Proofs.Landscape.Building
import TerrainPatches.Source.Flat

/-!
# Runs of a landscape

A landscape is used by one action after the other (`Action`).  Patches are held under names, and an
action on a patch takes the one that its name holds; it does nothing if the name holds none.  A run
has a result unless one of its requests has a fault.

Of all actions only a request that misses, an update and a clearing touch what is cached or
remembered (`act_cases`), and none touches the site, the settings or the size of a cell
(`sameGround_run`).

A frame bakes what is urgent and as many pending composites as its time lasts for; a frame without
a budget lasts for none of them and one with a budget for all (`renderFrame_eq_renderFor`).  A bake
uploads what the composite draws; the action `upload` stands for all else that gets to the device.
-/

namespace TerrainPatches

/-! ## frames -/

namespace Bakery

/-- one frame whose time lasts for the first `lasts` composites that are pending -/
def renderFor (b : Bakery) (lasts : Nat) : FrameStats × Bakery :=
  let urgent := { b with queue := { b.queue with urgent := [] } }.bakeAll b.queue.urgent
  let after := urgent.2
  let left := { after.queue with pending := after.queue.pending.drop lasts }
  let pending := { after with queue := left }.bakeAll (b.queue.pending.take lasts)
  (⟨urgent.1.1, pending.1.1, urgent.1.2 + pending.1.2⟩, pending.2)

theorem queue_bakeAll (b : Bakery) (cs : List (Shared Composite)) :
    (b.bakeAll cs).2.queue = b.queue := by
  induction cs generalizing b with
  | nil => rfl
  | cons c cs ih =>
    show ((b.bake c).2.bakeAll cs).2.queue = b.queue
    rw [ih]
    unfold bake
    split <;> rfl

theorem renderFrame_eq_renderFor (b : Bakery) : b.renderFrame
    = b.renderFor (if 0 < b.queue.budget then b.queue.pending.length else 0) := by
  have hq := queue_bakeAll { b with queue := { b.queue with urgent := [] } } b.queue.urgent
  unfold renderFrame renderFor
  generalize bakeAll _ b.queue.urgent = urgent at hq ⊢
  split
  · have none : urgent.2.queue.pending.drop b.queue.pending.length = [] := by
      rw [hq]
      exact List.drop_length
    simp only [none, List.take_length]
  · rfl

end Bakery

namespace Landscape

/-! ## actions -/

inductive Action where
  /-- a request at a time, and the name that is to hold the answer -/
  | get (r : PatchRequest) (now : Nat) (name : Option String)
  | drop (name : String)
  | setNodeMask (mask : UInt32)
  | update (now : Nat)
  | clear
  | enqueue (name : String)
  | compile (name : String)
  | compileQueued (limit : Nat)
  /-- whatever else finds its way to the device -/
  | upload (us : List Upload)
  | requestBake (name : String)
  | addComposite (name : String) (urgent : Bool)
  | renderFrame (lasts : Nat)
  | release
  | releasePatch (name : String)
  | releaseComposite (name : String)
  | releaseBuffers
  | releaseTileGrids

/-- what is done with the patch that a name holds -/
def withHeld (l : Landscape) (name : String) (f : Shared Patch → Landscape) : Landscape :=
  match l.holders.get? name with
  | some p => f p
  | none => l

/-- what is done with the composite of a patch -/
def withComposite (l : Landscape) (p : Shared Patch) (f : Shared Composite → Bakery) : Landscape :=
  match p.val.composite with
  | some c => { l with bakery := f c }
  | none => l

def addComposite (l : Landscape) (c : Shared Composite) (urgent : Bool) : Bakery :=
  match l.bakery.add c urgent with
  | .ok b => b
  | .error _ => l.bakery

def act (l : Landscape) : Action → Except Fault Landscape
  | .get r now name => do
    let (p, l) ← l.get r now
    return match name with
      | some name => l.hold name p
      | none => l
  | .drop name => .ok (l.drop name)
  | .setNodeMask mask => .ok (l.setNodeMask mask)
  | .update now => .ok (l.update now).2
  | .clear => .ok l.clear
  | .enqueue name => .ok (l.withHeld name fun p => l.enqueue p)
  | .compile name => .ok (l.withHeld name fun p => (l.compile p).2)
  | .compileQueued limit => .ok (l.compileQueued limit).2
  | .upload us => .ok { l with bakery := (l.bakery.uploadAll us).2 }
  | .requestBake name => .ok (l.withHeld name fun p => (l.requestBake p).2)
  | .addComposite name urgent =>
    .ok (l.withHeld name fun p => l.withComposite p fun c => l.addComposite c urgent)
  | .renderFrame lasts => .ok { l with bakery := (l.bakery.renderFor lasts).2 }
  | .release => .ok l.release.2
  | .releasePatch name => .ok (l.withHeld name fun p => (l.releasePatch p).2)
  | .releaseComposite name =>
    .ok (l.withHeld name fun p => l.withComposite p fun c => (l.bakery.release c).2)
  | .releaseBuffers => .ok l.releaseBuffers.2
  | .releaseTileGrids => .ok l.releaseTileGrids.2

/-- one action after the other -/
def run (l : Landscape) : List Action → Except Fault Landscape
  | [] => .ok l
  | a :: acts => do
    let l ← l.act a
    l.run acts

theorem run_cons {l l' : Landscape} {a : Action} (acts : List Action) (h : l.act a = .ok l') :
    l.run (a :: acts) = l'.run acts := by
  rw [run, h]
  rfl

/-- the requests among the actions -/
def requests (acts : List Action) : List PatchRequest :=
  acts.filterMap fun
    | .get r _ _ => some r
    | _ => none

theorem requests_subset {acts : List Action} {a : Action} (h : a ∈ acts) :
    requests [a] ⊆ requests acts :=
  List.filterMap_subset _ (List.cons_subset.mpr ⟨h, List.nil_subset _⟩)

/-- **What every action keeps is kept by a run.** -/
theorem run_induction {P : Landscape → Prop} {l l' : Landscape} {acts : List Action}
    (h : l.run acts = .ok l') (start : P l)
    (step : ∀ a ∈ acts, ∀ l l' : Landscape, l.act a = .ok l' → P l → P l') : P l' := by
  induction acts generalizing l with
  | nil =>
    cases h
    exact start
  | cons a acts ih =>
    obtain ⟨l₁, h₁, h⟩ := Fault.bind_eq_ok.mp h
    exact ih h (step a List.mem_cons_self l l₁ h₁ start)
      (fun b hb => step b (List.mem_cons_of_mem a hb))

/-- a frame is one of the actions, also with the budget taken to last for all or for none -/
theorem act_renderFrame (l : Landscape) :
    l.act (.renderFrame (if 0 < l.bakery.queue.budget then l.bakery.queue.pending.length else 0))
      = .ok l.renderFrame.2 := by
  unfold renderFrame
  rw [Bakery.renderFrame_eq_renderFor]
  rfl

/-! ## what an action touches -/

variable {l l' l'' : Landscape}

/-- `l'` is `l` but for what is drawn, held, counted and waiting -/
def Apart (l l' : Landscape) : Prop :=
  ∃ nodeMask counts uploadQueue bakery holders,
    l' = { l with nodeMask, counts, uploadQueue, bakery, holders }

theorem Apart.refl (l : Landscape) : Apart l l := ⟨_, _, _, _, _, rfl⟩

theorem Apart.trans (h : Apart l l') (h' : Apart l' l'') : Apart l l'' := by
  obtain ⟨m, c, q, b, o, rfl⟩ := h
  obtain ⟨m', c', q', b', o', rfl⟩ := h'
  exact ⟨m', c', q', b', o', rfl⟩

theorem apart_bakery (l : Landscape) (bakery : Bakery) : Apart l { l with bakery } :=
  ⟨_, _, _, _, _, rfl⟩

theorem apart_withHeld {name : String} {f : Shared Patch → Landscape}
    (hf : ∀ p, Apart l (f p)) : Apart l (l.withHeld name f) := by
  unfold withHeld
  split
  · exact hf _
  · exact .refl l

theorem apart_withComposite (p : Shared Patch) (f : Shared Composite → Bakery) :
    Apart l (l.withComposite p f) := by
  unfold withComposite
  split
  · exact apart_bakery l _
  · exact .refl l

theorem apart_compileAll (l : Landscape) (ps : List (Shared Patch)) : Apart l (l.compileAll ps) := by
  induction ps generalizing l with
  | nil => exact .refl l
  | cons p ps ih => exact (apart_bakery l _).trans (ih (l.compile p).2)

theorem apart_compileQueued (l : Landscape) (limit : Nat) :
    Apart l (l.compileQueued limit).2 := by
  unfold compileQueued
  split
  · exact .refl l
  · next q _ =>
    have first : Apart l { l with uploadQueue := some (q.drop limit) } := ⟨_, _, _, _, _, rfl⟩
    exact first.trans (apart_compileAll _ (q.take limit))

theorem apart_requestBake (l : Landscape) (p : Shared Patch) : Apart l (l.requestBake p).2 := by
  unfold requestBake
  split
  · exact .refl l
  · split
    · exact .refl l
    · exact apart_bakery l _

theorem get_of_act {r : PatchRequest} {now : Nat} {name : Option String}
    (h : l.act (.get r now name) = .ok l') :
    ∃ p l₁, l.get r now = .ok (p, l₁) ∧ Apart l₁ l' := by
  obtain ⟨⟨p, l₁⟩, hget, h⟩ := Fault.bind_eq_ok.mp h
  refine ⟨p, l₁, hget, ?_⟩
  cases name with
  | none => cases h; exact .refl l₁
  | some name => cases h; exact ⟨_, _, _, _, _, rfl⟩

/-- **What an action can do to what is cached and remembered.** -/
theorem act_cases {a : Action} (h : l.act a = .ok l') :
    Apart l l' ∨
      (∃ r now name p l₁, a = .get r now name ∧ l.cache.get? r.key = none ∧
        l.miss r now = .ok (p, l₁) ∧ Apart l₁ l') ∨
      (∃ now, a = .update now ∧ l' = (l.update now).2) ∨ (a = .clear ∧ l' = l.clear) := by
  cases a with
  | get r now name =>
    obtain ⟨p, l₁, hget, held⟩ := get_of_act h
    cases get_cases hget with
    | inl hhit =>
      refine .inl (.trans ?_ held)
      rw [hhit.2]
      exact ⟨_, _, _, _, _, rfl⟩
    | inr hmiss => exact .inr (.inl ⟨r, now, name, p, l₁, rfl, hmiss.1, hmiss.2, held⟩)
  | drop name => cases h; exact .inl ⟨_, _, _, _, _, rfl⟩
  | setNodeMask mask => cases h; exact .inl ⟨_, _, _, _, _, rfl⟩
  | update now => cases h; exact .inr (.inr (.inl ⟨now, rfl, rfl⟩))
  | clear => cases h; exact .inr (.inr (.inr ⟨rfl, rfl⟩))
  | enqueue name => cases h; exact .inl (apart_withHeld fun p => ⟨_, _, _, _, _, rfl⟩)
  | compile name => cases h; exact .inl (apart_withHeld fun p => apart_bakery l _)
  | compileQueued limit => cases h; exact .inl (apart_compileQueued l limit)
  | upload us => cases h; exact .inl (apart_bakery l _)
  | requestBake name => cases h; exact .inl (apart_withHeld (apart_requestBake l))
  | addComposite name urgent =>
    cases h
    exact .inl (apart_withHeld fun p => apart_withComposite p _)
  | renderFrame lasts => cases h; exact .inl (apart_bakery l _)
  | release => cases h; exact .inl (apart_bakery l _)
  | releasePatch name => cases h; exact .inl (apart_withHeld fun p => apart_bakery l _)
  | releaseComposite name =>
    cases h
    exact .inl (apart_withHeld fun p => apart_withComposite p _)
  | releaseBuffers => cases h; exact .inl (apart_bakery l _)
  | releaseTileGrids => cases h; exact .inl (apart_bakery l _)

theorem Apart.cache (h : Apart l l') : l'.cache = l.cache := by
  obtain ⟨m, c, q, b, o, rfl⟩ := h
  rfl

/-- what is cached after an action was cached before it or is the answer to a request -/
theorem cached_before_act {a : Action} (h : l.act a = .ok l') {k : PatchKey} {p : Shared Patch}
    (hp : (k, p) ∈ l'.cache.toList) : (k, p) ∈ l.cache.toList ∨
      ∃ r now name l₁, a = .get r now name ∧ l.miss r now = .ok (p, l₁) ∧ k = r.key := by
  rcases act_cases h with h | ⟨r, now, name, p', l₁, ha, -, hmiss, h⟩ | ⟨now, -, rfl⟩ | ⟨-, rfl⟩
  · rw [h.cache] at hp
    exact .inl hp
  · obtain ⟨patch, l₂, hbuild, hp', hl₁⟩ := miss_eq_ok hmiss
    have cache : l'.cache = l.cache.insert r.key p' now := by
      obtain ⟨w, c, b, rfl, -⟩ := builds_build hbuild
      rw [h.cache, hl₁]
    rw [cache] at hp
    cases ExpiringCache.mem_toList_insert hp with
    | inl hnew =>
      cases hnew
      exact .inr ⟨r, now, name, l₁, ha, hmiss, rfl⟩
    | inr hold => exact .inl hold
  · exact .inl ((l.cache.toList_evict l.outside now).subset hp)
  · exact absurd hp List.not_mem_nil

/-! ## what never changes -/

/-- what is fixed when a landscape is made -/
structure SameGround (l l' : Landscape) : Prop where
  site : l'.site = l.site
  settings : l'.settings = l.settings
  cellVertices : l'.cellVertices = l.cellVertices

theorem Apart.sameGround (h : Apart l l') : SameGround l l' := by
  obtain ⟨m, c, q, b, o, rfl⟩ := h
  exact ⟨rfl, rfl, rfl⟩

theorem sameGround_miss {r : PatchRequest} {now : Nat} {p : Shared Patch}
    (h : l.miss r now = .ok (p, l')) : SameGround l l' := by
  obtain ⟨patch, l₁, hbuild, -, rfl⟩ := miss_eq_ok h
  obtain ⟨w, c, b, rfl, -⟩ := builds_build hbuild
  exact ⟨rfl, rfl, rfl⟩

theorem sameGround_get {r : PatchRequest} {now : Nat} {p : Shared Patch}
    (h : l.get r now = .ok (p, l')) : SameGround l l' := by
  rcases get_cases h with ⟨-, rfl⟩ | ⟨-, hmiss⟩
  · exact ⟨rfl, rfl, rfl⟩
  · exact sameGround_miss hmiss

theorem SameGround.trans (h : SameGround l l') (h' : SameGround l' l'') : SameGround l l'' :=
  ⟨h'.site.trans h.site, h'.settings.trans h.settings, h'.cellVertices.trans h.cellVertices⟩

theorem sameGround_act {a : Action} (h : l.act a = .ok l') : SameGround l l' := by
  rcases act_cases h with h | ⟨r, now, name, p, l₁, -, -, hmiss, h⟩ | ⟨now, -, rfl⟩ | ⟨-, rfl⟩
  · exact h.sameGround
  · exact (sameGround_miss hmiss).trans h.sameGround
  · exact ⟨rfl, rfl, rfl⟩
  · exact ⟨rfl, rfl, rfl⟩

theorem sameGround_run {acts : List Action} (h : l.run acts = .ok l') : SameGround l l' :=
  run_induction h ⟨rfl, rfl, rfl⟩ fun _ _ _ _ hact hl => hl.trans (sameGround_act hact)

/-! ## a new landscape -/

/-- nothing has been built yet -/
structure New (source : Source) (scene : Scene) (s : Settings) (l : Landscape) : Prop where
  site : l.site = ⟨source, scene, s.world⟩
  settings : l.settings = s
  cellVertices : l.cellVertices = source.cellVertices s.world
  cache : l.cache = .empty s.expiry
  workshop : l.workshop = .initial

section
variable {source : Source} {scene : Scene} {queue : BakeQueue} {settings : Settings}

theorem New.toList_cache (h : New source scene settings l) : l.cache.toList = [] := by
  rw [h.cache]
  exact ExpiringCache.toList_empty _

theorem new_create (h : create source scene queue settings = .ok l) :
    New source scene settings l := by
  unfold create at h
  split at h
  · cases h
  · dsimp only at h
    split at h
    · cases h
    · cases h
      exact ⟨rfl, rfl, rfl, rfl, rfl⟩

theorem cellVertices_run {acts : List Action} (hl : create source scene queue settings = .ok l)
    (h : l.run acts = .ok l') : l'.cellVertices = source.cellVertices settings.world :=
  (sameGround_run h).cellVertices.trans (new_create hl).cellVertices

end

/-! ## a small landscape -/

/-- a cell is one interval, every patch has one layer and a composite has four texels a side -/
def small : Except SetupError Landscape :=
  create ({ FlatTerrain.standard with cellVertices := 2, layerCount := 1 }).source
    ⟨false, true, Scene.blankTexture, false, true⟩ ⟨[], [], 2, 0⟩
    { Settings.standard with textureSize := 4 }

/-- a landscape whose patches are drawn layer by layer: two layers with normal maps, and an image
that weights the second one -/
def layered : Except SetupError Landscape :=
  create ({ FlatTerrain.standard with cellVertices := 2, normalMaps := true }).source
    ⟨false, true, Scene.blankTexture, false, true⟩ ⟨[], [], 2, 0⟩
    { Settings.standard with bakedFrom := Scalar.four }

/-- a request for a patch at the origin that is uploaded soon -/
def requestAtOrigin (size : Float32) (seams : UInt32) : PatchRequest :=
  ⟨size, .fill ⟨0⟩, 0, ⟨seams⟩, true⟩

/-- a run that can be evaluated -/
theorem exists_run (made : Except SetupError Landscape) (acts : List Action)
    (test : Landscape → Bool)
    (h : (made.toOption.any fun l => (l.run acts).toOption.any test) = true) :
    ∃ l l', made = .ok l ∧ l.run acts = .ok l' ∧ test l' = true := by
  obtain ⟨l, hl, h⟩ := exists_ok_of_any h
  obtain ⟨l', hl', h⟩ := exists_ok_of_any h
  exact ⟨l, l', hl, hl', h⟩

theorem run_small (acts : List Action) (test : Landscape → Bool)
    (h : (small.toOption.any fun l => (l.run acts).toOption.any test) = true) :
    ∃ l l', small = .ok l ∧ l.run acts = .ok l' ∧ test l' = true :=
  exists_run small acts test h

/-- a pass with a normal map and a blend map, all of whose textures pass a test -/
theorem exists_mapped_of_any {passes : List Pass} (test : Shared Texture → Bool)
    (h : (passes.any fun pass =>
      pass.normal.isSome && pass.blendMap.isSome && pass.textures.all test) = true) :
    ∃ pass ∈ passes, ∃ normal blendMap,
      pass.normal = some normal ∧ pass.blendMap = some blendMap ∧
        ∀ t ∈ [pass.diffuse, normal, blendMap], t ∈ pass.textures ∧ test t = true := by
  obtain ⟨pass, hpass, h⟩ := List.any_eq_true.mp h
  obtain ⟨maps, tested⟩ := Bool.and_eq_true_iff.mp h
  obtain ⟨hnormal, hblendMap⟩ := Bool.and_eq_true_iff.mp maps
  obtain ⟨normal, hnormal⟩ := Option.isSome_iff_exists.mp hnormal
  obtain ⟨blendMap, hblendMap⟩ := Option.isSome_iff_exists.mp hblendMap
  refine ⟨pass, hpass, normal, blendMap, hnormal, hblendMap, fun t ht => ?_⟩
  have sampled : t ∈ pass.textures := by
    rw [Pass.mem_textures, hnormal, hblendMap]
    simpa [eq_comm] using ht
  exact ⟨sampled, List.all_eq_true.mp tested t sampled⟩

/-- a request after such a run -/
theorem get_small (acts : List Action) (r : PatchRequest) (test : Shared Patch → Bool)
    (h : (small.toOption.any fun l => (l.run acts).toOption.any fun l =>
      (l.get r 0).toOption.any fun a => test a.1) = true) :
    ∃ l l' l'' p, small = .ok l ∧ l.run acts = .ok l' ∧ l'.get r 0 = .ok (p, l'') ∧
      test p = true := by
  obtain ⟨l, l', hl, hl', h⟩ := run_small acts _ h
  obtain ⟨a, ha, h⟩ := exists_ok_of_any h
  exact ⟨l, l', a.2, a.1, hl, hl', ha, h⟩

end Landscape

end TerrainPatches
