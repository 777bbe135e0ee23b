import TerrainPatches.Proofs.Landscape.Sharing

/-!
# A full release

A release goes through the slots of the cached patches, then those of the tables of shared objects
(`Landscape.releasedSlots`).  The patches on their own leave out their buffers and the grids of
their tiles.  These are in the tables, since what a cached patch was given is still what its table
gives out (`Landscape.kept_run`), so nothing that a cached patch refers to stays on the device
(`release_of_run`), whatever was uploaded before.
-/

namespace TerrainPatches

/-! ## the device -/

namespace Device

variable (d : Device)

theorem isResident_iff {slot : ObjectId} :
    d.isResident slot = true ↔ ∃ e ∈ d.resident, e.1 = slot := by
  simp only [isResident, handle?, List.lookup_isSome_iff, beq_iff_eq, eq_comm (a := slot)]

/-- the device without some slots, whose handles are deleted -/
def without (slots : List ObjectId) (gone : List Nat) : Device :=
  { d with
    resident := d.resident.filter fun e => !slots.contains e.1
    deleted := gone ++ d.deleted }

theorem release_eq_without (slot : ObjectId) :
    ∃ gone, (d.release slot).1.toNat = gone.length ∧ (d.release slot).2 = d.without [slot] gone := by
  have drops : ∀ e : ObjectId × Nat, (!List.contains [slot] e.1) = (e.1 != slot) := by
    intro e
    rw [List.contains_cons, List.contains_nil, Bool.or_false]
    rfl
  cases h : d.handle? slot with
  | none =>
    refine ⟨[], by simp only [release, h]; rfl, ?_⟩
    have stays : d.resident.filter (fun e => !List.contains [slot] e.1) = d.resident := by
      refine List.filter_eq_self.mpr ?_
      intro e he
      rw [drops, bne_comm]
      exact List.lookup_eq_none_iff.mp h e he
    simp only [release, h, without, stays, List.nil_append]
  | some handle =>
    refine ⟨[handle], by simp only [release, h]; rfl, ?_⟩
    simp only [release, h, without, drops, List.cons_append, List.nil_append]

/-- **A release deletes as many handles as it says, and leaves all other slots alone.** -/
theorem releaseAll_eq_without (slots : List ObjectId) :
    ∃ gone, d.releaseAll slots = (gone.length, d.without slots gone) := by
  induction slots generalizing d with
  | nil =>
    refine ⟨[], ?_⟩
    have stays : d.resident.filter (fun e => !List.contains [] e.1) = d.resident :=
      List.filter_eq_self.mpr fun e _ => rfl
    simp only [releaseAll, without, stays, List.nil_append, List.length_nil]
  | cons slot slots ih =>
    obtain ⟨first, hcount, hfirst⟩ := d.release_eq_without slot
    obtain ⟨gone, hgone⟩ := ih (d.release slot).2
    refine ⟨gone ++ first, ?_⟩
    simp only [releaseAll, hgone, hcount, List.length_append, Nat.add_comm]
    rw [hfirst]
    simp only [without, List.filter_filter, List.append_assoc, List.contains_cons,
      List.contains_nil, Bool.or_false, Bool.not_or, Bool.and_comm]

theorem isResident_releaseAll (slots : List ObjectId) (slot : ObjectId) :
    (d.releaseAll slots).2.isResident slot = true ↔ d.isResident slot = true ∧ slot ∉ slots := by
  obtain ⟨gone, h⟩ := d.releaseAll_eq_without slots
  rw [h, isResident_iff, isResident_iff]
  simp only [without, List.mem_filter, Bool.not_eq_true', List.contains_eq_mem,
    decide_eq_false_iff_not]
  constructor
  · intro hs
    obtain ⟨e, ⟨he, hn⟩, rfl⟩ := hs
    exact ⟨⟨e, he, rfl⟩, hn⟩
  · intro hs
    obtain ⟨⟨e, he, rfl⟩, hn⟩ := hs
    exact ⟨e, ⟨he, hn⟩, rfl⟩

theorem releaseAll_of_not_resident {slots : List ObjectId}
    (h : ∀ slot ∈ slots, d.isResident slot = false) : d.releaseAll slots = (0, d) := by
  induction slots with
  | nil => rfl
  | cons slot slots ih =>
    have none : d.handle? slot = none :=
      Option.not_isSome_iff_eq_none.mp (Bool.not_eq_true _ ▸ h slot List.mem_cons_self)
    simp only [releaseAll, release, none, ih fun s hs => h s (List.mem_cons_of_mem slot hs)]
    rfl

end Device

namespace Bakery

theorem isBaked_markUnbaked (b : Bakery) {ids : List ObjectId} {c : Shared Composite}
    (h : c.id ∈ ids) : (b.markUnbaked ids).isBaked c = false := by
  simp [isBaked, markUnbaked, h]

theorem markUnbaked_markUnbaked (b : Bakery) (ids : List ObjectId) :
    (b.markUnbaked ids).markUnbaked ids = b.markUnbaked ids := by
  simp only [markUnbaked, List.filter_filter, Bool.and_self]

end Bakery

/-! ## what a patch refers to -/

/-- the slots of all that a pass samples -/
def Pass.everySlot (p : Pass) : List ObjectId :=
  p.diffuse.id :: ((p.normal.map (·.id)).toList ++ (p.blendMap.map (·.id)).toList)

/-- the slots of all that the drawing of a patch and the bake of its composite refer to -/
def Draw.everySlot : Draw → List ObjectId
  | .layer _ pass => pass.everySlot
  | .detail grid colors _ =>
    [colors.slot, grid.val.positions.slot, grid.val.uvs.id, grid.val.indices.id]

def Composite.everySlot (c : Composite) : List ObjectId :=
  c.target.id :: c.draws.flatMap Draw.everySlot

def Patch.everySlot (p : Patch) : List ObjectId :=
  [p.positions.slot, p.normals.slot, p.colors.slot, p.indices.id, p.uvs.id] ++
    p.passes.val.flatMap Pass.everySlot ++
      p.composite.toList.flatMap fun c => c.val.everySlot

theorem Pass.map_textures (p : Pass) : p.textures.map (·.id) = p.everySlot := by
  cases hn : p.normal <;> cases hb : p.blendMap <;> simp [textures, everySlot, hn, hb]

theorem Patch.map_textures (p : Patch) :
    p.textures.map (·.id) = p.passes.val.flatMap Pass.everySlot := by
  rw [textures, List.map_flatMap]
  exact congrArg (p.passes.val.flatMap ·) (funext Pass.map_textures)

theorem Draw.slots_layer (quad : Quad Float32) (pass : Pass) :
    (Draw.layer quad pass).slots = pass.everySlot := pass.map_textures

theorem Draw.slots_subset (d : Draw) : d.slots ⊆ d.everySlot := by
  cases d with
  | layer quad pass =>
    rw [slots_layer]
    exact List.Subset.refl _
  | detail grid colors blend => exact List.cons_subset_cons _ (List.nil_subset _)

theorem Composite.slots_subset (c : Composite) : c.slots ⊆ c.everySlot := by
  refine List.cons_subset_cons _ fun s hs => ?_
  obtain ⟨d, hd, hs⟩ := List.mem_flatMap.mp hs
  exact List.mem_flatMap.mpr ⟨d, hd, d.slots_subset hs⟩

theorem Patch.slots_subset (p : Patch) : p.slots ⊆ p.everySlot := by
  intro s hs
  simp only [slots, map_textures, everySlot, List.mem_append, List.mem_flatMap,
    List.mem_cons] at hs ⊢
  rcases hs with (vertices | texture) | ⟨c, hc, hs⟩
  · tauto
  · exact .inl (.inr texture)
  · exact .inr ⟨c, hc, c.val.slots_subset hs⟩

namespace GridBuffers

theorem mem_slots_of_findIndex? {b : GridBuffers} {n : Nat} {e : UInt16} {s : Shared IndexBuffer}
    (h : b.findIndex? n e = some s) : s.id ∈ b.slots :=
  List.mem_append_left _ (List.mem_map_of_mem (List.mem_of_find?_eq_some h))

theorem mem_slots_of_findUv? {b : GridBuffers} {n : Nat} {s : Shared UvBuffer}
    (h : b.findUv? n = some s) : s.id ∈ b.slots :=
  List.mem_append_right _ (List.mem_map_of_mem (List.mem_of_find?_eq_some h))

end GridBuffers

namespace Workshop

theorem mem_tileGridSlots {w : Workshop} {k : TileKey} {g : Shared TileGrid}
    (h : w.tileGrids.lookup k = some g) : g.val.positions.slot ∈ w.tileGridSlots :=
  List.mem_map.mpr ⟨(k, g), mem_of_lookup h, rfl⟩

end Workshop

namespace Landscape

variable {l l' : Landscape}

/-- all slots that a release goes through -/
def releasedSlots (l : Landscape) : List ObjectId :=
  (l.cache.objects.flatMap fun p => p.val.slots) ++ l.workshop.buffers.slots ++
    l.workshop.tileGridSlots

/-- the composites that have to be baked again after a release -/
def cachedComposites (l : Landscape) : List ObjectId :=
  l.cache.objects.flatMap fun p => p.val.compositeIds

theorem release_eq (l : Landscape) : l.release =
    ((l.bakery.releaseAll l.releasedSlots).1,
      { l with bakery :=
          (l.bakery.releaseAll l.releasedSlots).2.markUnbaked l.cachedComposites }) := by
  simp only [releasedSlots, Bakery.releaseAll, Device.releaseAll_append]
  rfl

theorem slots_subset_releasedSlots {k : PatchKey} {p : Shared Patch}
    (hp : (k, p) ∈ l.cache.toList) : p.val.slots ⊆ l.releasedSlots := by
  intro slot hs
  refine List.mem_append_left _ (List.mem_append_left _ ?_)
  exact List.mem_flatMap.mpr ⟨p, ExpiringCache.mem_objects.mpr ⟨k, hp⟩, hs⟩

theorem buffers_subset_releasedSlots (l : Landscape) :
    l.workshop.buffers.slots ⊆ l.releasedSlots :=
  fun _ hs => List.mem_append_left _ (List.mem_append_right _ hs)

theorem tileGrids_subset_releasedSlots (l : Landscape) :
    l.workshop.tileGridSlots ⊆ l.releasedSlots :=
  fun _ hs => List.mem_append_right _ hs

/-- what one draw of a composite refers to is released with its composite or in a table -/
theorem Kept.draw_subset (hl : l.Kept) {k : PatchKey} {p : Shared Patch}
    (hp : (k, p) ∈ l.cache.toList) {c : Shared Composite} (hc : c ∈ p.val.composite) {t : Tile}
    (ht : t ∈ c.val.tiles) {draw : Draw} (hd : draw ∈ t.draws) :
    draw.everySlot ⊆ draw.slots ++ l.releasedSlots := by
  cases draw with
  | layer quad pass =>
    rw [Draw.slots_layer]
    exact List.subset_append_left _ _
  | detail g colors blend =>
    have found := (hl.supplied hp).tiles c hc t ht g colors blend hd
    obtain ⟨n, -, huv, hindex, -⟩ := hl.stocked found
    -- only the colors are released with the composite; the grid and its buffers are in the tables
    refine List.cons_subset_cons _ ?_
    refine List.cons_subset.mpr ⟨?_, List.cons_subset.mpr ⟨?_, List.cons_subset.mpr ⟨?_, ?_⟩⟩⟩
    · exact l.tileGrids_subset_releasedSlots (Workshop.mem_tileGridSlots found)
    · exact l.buffers_subset_releasedSlots (GridBuffers.mem_slots_of_findUv? huv)
    · exact l.buffers_subset_releasedSlots (GridBuffers.mem_slots_of_findIndex? hindex)
    · exact List.nil_subset _

/-- **A release goes through everything that a cached patch refers to.** -/
theorem Kept.everySlot_subset (hl : l.Kept) {k : PatchKey} {p : Shared Patch}
    (hp : (k, p) ∈ l.cache.toList) : p.val.everySlot ⊆ l.releasedSlots := by
  have own := slots_subset_releasedSlots hp
  obtain ⟨n, -, hindex, huv⟩ := (hl.supplied hp).buffers
  intro slot hs
  rcases List.mem_append.mp hs with hs | hs
  · rcases List.mem_append.mp hs with hs | hs
    · have parts : slot ∈ [p.val.positions.slot, p.val.normals.slot, p.val.colors.slot] ++
        [p.val.indices.id, p.val.uvs.id] := hs
      rcases List.mem_append.mp parts with hs | hs
      · exact own (List.mem_append_left _ (List.mem_append_left _ hs))
      · rcases List.mem_pair.mp hs with rfl | rfl
        · exact l.buffers_subset_releasedSlots (GridBuffers.mem_slots_of_findIndex? hindex)
        · exact l.buffers_subset_releasedSlots (GridBuffers.mem_slots_of_findUv? huv)
    · refine own (List.mem_append_left _ (List.mem_append_right _ ?_))
      rwa [Patch.map_textures]
  · obtain ⟨c, hc, hs⟩ := List.mem_flatMap.mp hs
    have composite : c.val.slots ⊆ l.releasedSlots := fun _ h =>
      own (List.mem_append_right _ (List.mem_flatMap.mpr ⟨c, hc, h⟩))
    rcases List.mem_cons.mp hs with rfl | hs
    · exact composite List.mem_cons_self
    · obtain ⟨draw, hd, hs⟩ := List.mem_flatMap.mp hs
      obtain ⟨t, ht, hdt⟩ := List.mem_flatMap.mp hd
      rcases List.mem_append.mp (hl.draw_subset hp (Option.mem_toList.mp hc) ht hdt hs) with h | h
      · exact composite (List.mem_cons_of_mem _ (List.mem_flatMap.mpr ⟨draw, hd, h⟩))
      · exact h

/-! ## the release -/

/-- nothing that a release goes through is left on the device -/
theorem not_resident_release (l : Landscape) {slot : ObjectId} (h : slot ∈ l.releasedSlots) :
    l.release.2.bakery.device.isResident slot = false := by
  rw [release_eq, Bool.eq_false_iff]
  intro resident
  exact ((l.bakery.device.isResident_releaseAll l.releasedSlots slot).mp resident).2 h

/-- a second release finds nothing to do -/
theorem release_release (l : Landscape) : l.release.2.release = (0, l.release.2) := by
  have slots : l.release.2.releasedSlots = l.releasedSlots := by rw [release_eq]; rfl
  have composites : l.release.2.cachedComposites = l.cachedComposites := by rw [release_eq]; rfl
  have nothing : l.release.2.bakery.releaseAll l.releasedSlots = (0, l.release.2.bakery) := by
    unfold Bakery.releaseAll
    rw [Device.releaseAll_of_not_resident _ fun slot hs => l.not_resident_release hs]
  rw [release_eq l.release.2, slots, composites, nothing]
  rw [release_eq]
  simp only [Bakery.markUnbaked_markUnbaked]

/-- **A release after any run is complete.**  All that a cached patch refers to is gone from the
device and its composite has to be baked again; the count is that of the handles deleted; nothing
but the device and the marks of baked composites has changed; and a second release does nothing. -/
theorem release_of_run {source : Source} {scene : Scene} {queue : BakeQueue} {settings : Settings}
    {acts : List Action} (hl : create source scene queue settings = .ok l)
    (h : l.run acts = .ok l') :
    (∀ k p, (k, p) ∈ l'.cache.toList →
      (∀ slot ∈ p.val.everySlot, l'.release.2.bakery.device.isResident slot = false) ∧
      ∀ c ∈ p.val.composite, l'.release.2.bakery.isBaked c = false) ∧
    (∃ resident gone baked, l'.release = (gone.length, { l' with
      bakery := { l'.bakery with
        baked
        device := { l'.bakery.device with
          resident
          deleted := gone ++ l'.bakery.device.deleted } } })) ∧
    l'.release.2.release = (0, l'.release.2) := by
  have kept := kept_run hl h
  refine ⟨?_, ?_, l'.release_release⟩
  · intro k p hp
    refine ⟨fun slot hs => l'.not_resident_release (kept.everySlot_subset hp hs), ?_⟩
    intro c hc
    rw [release_eq]
    refine Bakery.isBaked_markUnbaked _ (List.mem_flatMap.mpr ⟨p, ?_, ?_⟩)
    · exact ExpiringCache.mem_objects.mpr ⟨k, hp⟩
    · exact List.mem_map_of_mem (Option.mem_toList.mpr hc)
  · obtain ⟨gone, hgone⟩ := l'.bakery.device.releaseAll_eq_without l'.releasedSlots
    rw [release_eq]
    unfold Bakery.releaseAll
    rw [hgone]
    exact ⟨_, gone, _, rfl⟩

/-- a baked patch and a copy of it, some of it released and uploaded again -/
def bakedTwice : List Action :=
  [.get (requestAtOrigin Scalar.two 0) 0 "patch", .get (requestAtOrigin Scalar.two 1) 0 "copy",
    .requestBake "patch", .renderFrame 0, .compile "patch", .compile "copy", .releaseBuffers,
    .update 6000, .compile "copy"]

/-- a patch drawn in layers, uploaded -/
def drawnInLayers : List Action :=
  [.get (requestAtOrigin Scalar.one 0) 0 "patch", .compile "patch"]

/-- among what is released are the normal map and the blend map of a layer -/
theorem release_of_run_bakedTwice : (∃ l l' : Landscape, small = .ok l ∧
    l.run bakedTwice = .ok l' ∧ l'.cache.size = 2 ∧ l'.release.1 = 21 ∧
    ∀ k p, (k, p) ∈ l'.cache.toList →
      ∀ slot ∈ p.val.everySlot, l'.release.2.bakery.device.isResident slot = false) ∧
    ∃ l l' : Landscape, layered = .ok l ∧ l.run drawnInLayers = .ok l' ∧
      ∃ k p, (k, p) ∈ l'.cache.toList ∧ ∃ pass ∈ p.val.passes.val, ∃ normal blendMap,
        pass.normal = some normal ∧ pass.blendMap = some blendMap ∧
        ∀ t ∈ [pass.diffuse, normal, blendMap], l'.bakery.device.isResident t.id = true ∧
          l'.release.2.bakery.device.isResident t.id = false := by
  constructor
  · obtain ⟨l, l', hl, h, ht⟩ := run_small bakedTwice
      (fun l => decide (l.cache.size = 2) && decide (l.release.1 = 21)) (by decide +kernel)
    rw [Bool.and_eq_true, decide_eq_true_eq, decide_eq_true_eq] at ht
    exact ⟨l, l', hl, h, ht.1, ht.2, fun k p hp => ((release_of_run hl h).1 k p hp).1⟩
  · obtain ⟨l, l', hl, h, ht⟩ := exists_run layered drawnInLayers
      (fun l => l.cache.toList.any fun e => e.2.val.passes.val.any fun pass =>
        pass.normal.isSome && pass.blendMap.isSome &&
          pass.textures.all fun t => l.bakery.device.isResident t.id) (by decide +kernel)
    obtain ⟨⟨k, p⟩, hp, ht⟩ := List.any_eq_true.mp ht
    obtain ⟨pass, hpass, normal, blendMap, hnormal, hblendMap, resident⟩ :=
      exists_mapped_of_any _ ht
    refine ⟨l, l', hl, h, k, p, hp, pass, hpass, normal, blendMap, hnormal, hblendMap, ?_⟩
    intro t ht
    obtain ⟨sampled, before⟩ := resident t ht
    refine ⟨before, ((release_of_run hl h).1 k p hp).1 _ ?_⟩
    rw [Patch.everySlot, ← Patch.map_textures]
    exact List.mem_append_left _ (List.mem_append_right _
      (List.mem_map_of_mem (List.mem_flatMap.mpr ⟨pass, hpass, sampled⟩)))

end Landscape

end TerrainPatches
