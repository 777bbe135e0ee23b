import TerrainPatches.Proofs.Landscape.Handles

/-!
# What can still be reached

A landscape reaches what it has cached or in a table, what waits in its queues and what a name holds
(`reach`).  Uploads and bakes are of what is reached, so a handle that is live belongs to something
that is reached or was let go while it was resident (`live_of_run`).  What is let go is not released:
an update, a clearing, a queue or a name may be the last to know of it, and its handles then stay
live (`lost_of_run`).
-/

namespace TerrainPatches

/-! ## what is uploaded -/

theorem Patch.slots_uploads (p : Patch) : p.uploads.map (·.slot) ⊆ p.everySlot := by
  refine List.subset_append_of_subset_left _ ?_
  rw [uploads, List.map_append, List.map_map]
  refine List.append_subset.mpr ⟨List.subset_append_left _ _, ?_⟩
  rw [← p.map_textures]
  exact List.subset_append_of_subset_right _ (List.map_subset _ (List.filter_subset_self _))

theorem Draw.slots_uploads (d : Draw) : d.uploads.map (·.slot) ⊆ d.everySlot := by
  cases d with
  | layer quad pass =>
    rw [uploads, List.map_map]
    exact (layer quad pass).slots_subset
  | detail grid colors blend =>
    intro s hs
    simp only [uploads, everySlot, VertexArray.upload, List.map_cons, List.map_nil,
      List.mem_cons] at hs ⊢
    tauto

theorem Composite.slots_uploads (c : Composite) : c.uploads.map (·.slot) ⊆ c.everySlot := by
  refine List.cons_subset_cons _ ?_
  rw [List.map_flatMap]
  intro s hs
  obtain ⟨d, hd, hs⟩ := List.mem_flatMap.mp hs
  exact List.mem_flatMap.mpr ⟨d, hd, d.slots_uploads hs⟩

namespace Device

variable {d : Device} {slot : ObjectId} {handle : Nat}

theorem handle?_uploadAll {us : List Upload} (h : slot ∉ us.map (·.slot)) :
    (d.uploadAll us).2.handle? slot = d.handle? slot := by
  induction us generalizing d with
  | nil => rfl
  | cons u us ih =>
    rw [List.map_cons, List.mem_cons, not_or] at h
    show ((d.upload u).2.uploadAll us).2.handle? slot = _
    rw [ih h.2]
    cases new : d.isResident u.slot with
    | true => rw [upload_of_resident new]
    | false =>
      rw [upload_of_not_resident new]
      show List.lookup slot ((u.slot, d.created + 1) :: d.resident) = _
      rw [List.lookup_cons, beq_eq_false_iff_ne.mpr h.1]
      rfl

theorem lookup_of_lookup_filter {es : List (ObjectId × Nat)} {other : ObjectId}
    (h : (es.filter fun e => e.1 != other).lookup slot = some handle) :
    es.lookup slot = some handle := by
  induction es with
  | nil => cases h
  | cons e es ih =>
    by_cases he : e.1 = other
    · rw [List.filter_cons_of_neg (by simp [he])] at h
      have kept := mem_of_lookup h
      have differs : (slot == e.1) = false := by
        rw [he]
        exact (Bool.not_eq_true' _).mp (List.of_mem_filter kept :)
      rw [List.lookup_cons, differs]
      exact ih h
    · rw [List.filter_cons_of_pos (by simp [he]), List.lookup_cons] at h
      rw [List.lookup_cons]
      split at h
      · exact h
      · exact ih h

theorem handle?_release {other : ObjectId} (h : (d.release other).2.handle? slot = some handle) :
    d.handle? slot = some handle := by
  unfold Device.release at h
  split at h
  · exact h
  · exact lookup_of_lookup_filter h

theorem handle?_releaseAll {slots : List ObjectId}
    (h : (d.releaseAll slots).2.handle? slot = some handle) : d.handle? slot = some handle := by
  induction slots generalizing d with
  | nil => exact h
  | cons other slots ih => exact handle?_release (ih h)

end Device

namespace Bakery

/-- the slots that a move may upload to -/
def Move.uploaded : Move → List ObjectId
  | .upload us => us.map (·.slot)
  | .bake c => c.val.uploads.map (·.slot)
  | _ => []

theorem handle?_move {b : Bakery} {m : Move} {slot : ObjectId} {handle : Nat}
    (h : (b.move m).device.handle? slot = some handle) (untouched : slot ∉ m.uploaded) :
    b.device.handle? slot = some handle := by
  cases m with
  | upload us => rwa [← Device.handle?_uploadAll untouched]
  | bake c =>
    replace h : (b.bake c).2.device.handle? slot = some handle := h
    unfold bake at h
    split at h
    · exact h
    · rwa [← Device.handle?_uploadAll untouched]
  | release slots => exact Device.handle?_releaseAll h
  | unbake ids => exact h

theorem handle?_moveAll {b : Bakery} {ms : List Move} {slot : ObjectId} {handle : Nat}
    (h : (b.moveAll ms).device.handle? slot = some handle)
    (untouched : ∀ m ∈ ms, slot ∉ m.uploaded) : b.device.handle? slot = some handle := by
  induction ms generalizing b with
  | nil => exact h
  | cons m ms ih =>
    exact handle?_move (ih h fun n hn => untouched n (List.mem_cons_of_mem m hn))
      (untouched m List.mem_cons_self)

end Bakery

/-! ## what is reached -/

namespace Workshop

variable {site : Site} {w w' : Workshop}

/-- the tables of a workshop only grow while it works -/
structure Fills (w w' : Workshop) : Prop where
  buffers : w.buffers.slots ⊆ w'.buffers.slots
  tileGrids : w.tileGridSlots ⊆ w'.tileGridSlots

theorem Fills.refl (w : Workshop) : Fills w w := ⟨List.Subset.refl _, List.Subset.refl _⟩

theorem Step.fills (h : Step site w w') : Fills w w' := by
  cases h with
  | name supply later => exact ⟨List.Subset.refl _, List.Subset.refl _⟩
  | ask requests => exact ⟨List.Subset.refl _, List.Subset.refl _⟩
  | texture path => exact ⟨List.Subset.refl _, List.Subset.refl _⟩
  | indexBuffer n seams =>
    simp only [Workshop.indexBuffer, GridBuffers.indexBuffer]
    split
    · exact .refl w
    · exact ⟨List.subset_cons_self _ _, List.Subset.refl _⟩
  | uvBuffer n =>
    simp only [Workshop.uvBuffer, GridBuffers.uvBuffer]
    split
    · exact .refl w
    · refine ⟨List.append_subset.mpr ⟨List.subset_append_left _ _, ?_⟩, List.Subset.refl _⟩
      exact List.subset_append_of_subset_right _ (List.subset_cons_self _ _)
  | grid k g new fits => exact ⟨List.Subset.refl _, List.subset_cons_self _ _⟩

theorem Steps.fills (h : Steps site w w') : Fills w w' := by
  induction h with
  | refl => exact .refl w
  | tail _ step ih =>
    exact ⟨List.Subset.trans ih.buffers step.fills.buffers,
      List.Subset.trans ih.tileGrids step.fills.tileGrids⟩

end Workshop

namespace Landscape

variable {l l' : Landscape}

/-- the slots of what is cached and of the tables -/
def ownSlots (l : Landscape) : List ObjectId :=
  (l.cache.objects.flatMap fun p => p.val.everySlot) ++ l.workshop.buffers.slots ++
    l.workshop.tileGridSlots

/-- the slots of all that can be reached: of what is cached, held or waiting and of the tables -/
def reach (l : Landscape) : List ObjectId :=
  (l.patches.flatMap fun p => p.val.everySlot) ++
    (l.bakery.queue.waiting.flatMap fun c => c.val.everySlot) ++
    l.workshop.buffers.slots ++ l.workshop.tileGridSlots

/-- the actions by which something may be let go -/
def Action.letsGo : Action → Bool
  | .get _ _ (some _) | .drop _ | .update _ | .clear | .compileQueued _ | .renderFrame _ => true
  | _ => false

/-- what is reached in `l` is reached in `l'` -/
structure Widens (l l' : Landscape) : Prop where
  patches : l.patches ⊆ l'.patches
  waiting : l.bakery.queue.waiting ⊆ l'.bakery.queue.waiting
  tables : l.workshop.Fills l'.workshop

theorem Widens.reach (h : Widens l l') : l.reach ⊆ l'.reach := by
  intro slot hs
  simp only [Landscape.reach, List.mem_append, List.mem_flatMap] at hs ⊢
  rcases hs with ((⟨p, hp, hs⟩ | ⟨c, hc, hs⟩) | hs) | hs
  · exact .inl (.inl (.inl ⟨p, h.patches hp, hs⟩))
  · exact .inl (.inl (.inr ⟨c, h.waiting hc, hs⟩))
  · exact .inl (.inr (h.tables.buffers hs))
  · exact .inr (h.tables.tileGrids hs)

theorem everySlot_subset_reach {p : Shared Patch} (hp : p ∈ l.patches) :
    p.val.everySlot ⊆ l.reach := by
  intro slot hs
  simp only [reach, List.mem_append, List.mem_flatMap]
  exact .inl (.inl (.inl ⟨p, hp, hs⟩))

theorem waiting_subset_reach {c : Shared Composite} (hc : c ∈ l.bakery.queue.waiting) :
    c.val.everySlot ⊆ l.reach := by
  intro slot hs
  simp only [reach, List.mem_append, List.mem_flatMap]
  exact .inl (.inl (.inr ⟨c, hc, hs⟩))

/-! ## one action -/

theorem queued_subset_append (queue : Option (List (Shared Patch))) (p : Shared Patch) :
    queue.getD [] ⊆ (queue.map (· ++ [p])).getD [] := by
  cases queue with
  | none => exact List.nil_subset _
  | some q => exact List.subset_append_left _ _

/-- a patch that is built displaces no other -/
theorem widens_miss {r : PatchRequest} {now : Nat} {p : Shared Patch} (hl : l.Kept)
    (new : l.cache.get? r.key = none) (h : l.miss r now = .ok (p, l')) :
    l.patches ⊆ l'.patches ∧ l.workshop.Fills l'.workshop := by
  obtain ⟨patch, l₁, hbuild, -, rfl⟩ := miss_eq_ok h
  obtain ⟨w, c, b, rfl, steps⟩ := builds_build hbuild
  have tables := Workshop.Steps.fills steps
  refine ⟨?_, tables.buffers, tables.tileGrids⟩
  refine patches_subset ?_ (List.subset_append_of_subset_left _ (List.subset_append_right _ _)) ?_
  · intro q hq
    obtain ⟨k, hq⟩ := ExpiringCache.mem_objects.mp hq
    refine List.mem_append_left _ (List.mem_append_left _ (ExpiringCache.mem_objects.mpr ⟨k, ?_⟩))
    exact hl.ordered.mem_toList_insert_of_new new hq
  · refine List.subset_append_of_subset_right _ ?_
    dsimp only
    split
    · exact queued_subset_append _ _
    · exact List.Subset.refl _

theorem widens_get {r : PatchRequest} {now : Nat} {p : Shared Patch} (hl : l.Kept)
    (h : l.get r now = .ok (p, l')) :
    l.patches ⊆ l'.patches ∧ l.workshop.Fills l'.workshop := by
  rcases get_cases h with ⟨-, rfl⟩ | ⟨new, hmiss⟩
  · exact ⟨List.Subset.refl _, .refl _⟩
  · exact widens_miss hl new hmiss

theorem widens_enqueue (l : Landscape) (p : Shared Patch) : l.patches ⊆ (l.enqueue p).patches := by
  refine List.append_subset.mpr ⟨List.subset_append_left _ _, ?_⟩
  exact List.subset_append_of_subset_right _ (queued_subset_append _ _)

theorem widens_act {a : Action} (hl : l.Kept) (h : l.act a = .ok l') (ha : a.letsGo = false) :
    Widens l l' := by
  have waiting : l.bakery.queue.waiting ⊆ l'.bakery.queue.waiting := by
    rcases bakery_act h with ⟨queue, hb, keeps, -⟩ | ⟨lasts, rfl, -⟩
    · rw [hb]
      exact keeps.waiting
    · cases ha
  have rest : l.patches ⊆ l'.patches ∧ l.workshop.Fills l'.workshop := by
    cases a with
    | get r now name =>
      cases name with
      | none =>
        obtain ⟨⟨p, l₁⟩, hget, h⟩ := Fault.bind_eq_ok.mp h
        cases h
        exact widens_get hl hget
      | some name => cases ha
    | setNodeMask mask => cases h; exact ⟨List.Subset.refl _, .refl _⟩
    | enqueue name =>
      cases h
      unfold withHeld
      split
      · next p _ => exact ⟨l.widens_enqueue p, .refl _⟩
      · exact ⟨List.Subset.refl _, .refl _⟩
    | drop _ | update _ | clear | compileQueued _ => cases ha
    | _ =>
      obtain ⟨bakery, rfl⟩ := act_atBakery h rfl
      exact ⟨List.Subset.refl _, .refl _⟩
  exact ⟨rest.1, waiting, rest.2⟩

/-- what is uploaded or baked is reached -/
theorem uploaded_subset_reach {a : Action} (ha : ∀ us, a ≠ .upload us) {m : Bakery.Move}
    (hm : m ∈ l.moves a) : m.uploaded ⊆ l.reach := by
  cases a with
  | compile name =>
    obtain ⟨p, hp, hm⟩ := List.mem_flatMap.mp hm
    rw [List.mem_singleton.mp hm]
    exact List.Subset.trans p.val.slots_uploads
      (everySlot_subset_reach (mem_patches_of_held (Option.mem_toList.mp hp)))
  | compileQueued limit =>
    obtain ⟨p, hp, rfl⟩ := List.mem_map.mp hm
    exact List.Subset.trans p.val.slots_uploads
      (everySlot_subset_reach (l.queued_subset (List.take_subset _ _ hp)))
  | upload us => exact absurd rfl (ha us)
  | renderFrame lasts =>
    obtain ⟨c, hc, rfl⟩ := List.mem_map.mp hm
    exact List.Subset.trans c.val.slots_uploads
      (waiting_subset_reach (l.bakery.taken_subset lasts hc))
  | release => rcases List.mem_pair.mp hm with rfl | rfl <;> exact List.nil_subset _
  | releasePatch name =>
    obtain ⟨p, -, hm⟩ := List.mem_flatMap.mp hm
    rcases List.mem_pair.mp hm with rfl | rfl <;> exact List.nil_subset _
  | releaseComposite name =>
    obtain ⟨p, -, hm⟩ := List.mem_flatMap.mp hm
    obtain ⟨c, -, hm⟩ := List.mem_flatMap.mp hm
    rcases List.mem_pair.mp hm with rfl | rfl <;> exact List.nil_subset _
  | releaseBuffers => rw [List.mem_singleton.mp hm]; exact List.nil_subset _
  | releaseTileGrids => rw [List.mem_singleton.mp hm]; exact List.nil_subset _
  | _ => exact absurd hm List.not_mem_nil

/-- a handle of something that is not reached was there before; either it was not reached before
or the action has let it go -/
theorem unreached_act {a : Action} (hl : l.Kept) (h : l.act a = .ok l')
    (ha : ∀ us, a ≠ .upload us) {slot : ObjectId} {handle : Nat} (unreached : slot ∉ l'.reach)
    (hs : l'.bakery.device.handle? slot = some handle) :
    (slot ∈ l.reach ∧ a.letsGo = true) ∨
      (slot ∉ l.reach ∧ l.bakery.device.handle? slot = some handle) := by
  by_cases reached : slot ∈ l.reach
  · refine .inl ⟨reached, ?_⟩
    cases hgo : a.letsGo with
    | true => rfl
    | false => exact absurd ((widens_act hl h hgo).reach reached) unreached
  · refine .inr ⟨reached, ?_⟩
    obtain ⟨queue, hb⟩ := moveAll_act h
    rw [hb] at hs
    exact Bakery.handle?_moveAll hs fun m hm hslot => reached (uploaded_subset_reach ha hm hslot)

/-! ## runs -/

/-- a run lets go of what a slot belongs to, while it has this handle -/
def LetsGoOf (l : Landscape) (acts : List Action) (slot : ObjectId) (handle : Nat) : Prop :=
  ∃ s ∈ l.trace acts, ∃ l', s.1.act s.2 = .ok l' ∧ s.2.letsGo = true ∧ slot ∈ s.1.reach ∧
    slot ∉ l'.reach ∧ l'.bakery.device.handle? slot = some handle

/-- what has a handle after a run is reached, or was let go, or had it before -/
theorem handle_of_run {acts : List Action} (hl : l.Kept) (h : l.run acts = .ok l')
    (ha : ∀ us, .upload us ∉ acts) {slot : ObjectId} {handle : Nat}
    (hs : l'.bakery.device.handle? slot = some handle) :
    slot ∈ l'.reach ∨ l.LetsGoOf acts slot handle ∨
      (slot ∉ l.reach ∧ l.bakery.device.handle? slot = some handle) := by
  -- the last alternative goes back through the run until an action that let the slot go is found
  induction acts generalizing l with
  | nil =>
    cases h
    exact (em _).imp_right fun unreached => .inr ⟨unreached, hs⟩
  | cons a acts ih =>
    obtain ⟨l₁, h₁, h⟩ := Fault.bind_eq_ok.mp h
    have first : ∀ us, a ≠ .upload us := by
      rintro us rfl
      exact ha us List.mem_cons_self
    rw [LetsGoOf, trace_cons acts h₁]
    rcases ih (hl.act h₁) h fun us hu => ha us (List.mem_cons_of_mem a hu) with
      reached | ⟨s, hs, go⟩ | ⟨unreached, before⟩
    · exact .inl reached
    · exact .inr (.inl ⟨s, List.mem_cons_of_mem _ hs, go⟩)
    · rcases unreached_act hl h₁ first unreached before with ⟨reached, go⟩ | earlier
      · exact .inr (.inl ⟨(l, a), List.mem_cons_self, l₁, h₁, go, reached, unreached, before⟩)
      · exact .inr (.inr earlier)

/-- a release deletes what the cache and the tables hold -/
theorem not_resident_of_ownSlots (hl : l.Kept) {slot : ObjectId} (hs : slot ∈ l.ownSlots) :
    l.release.2.bakery.device.isResident slot = false := by
  refine l.not_resident_release ?_
  simp only [ownSlots, List.mem_append, List.mem_flatMap] at hs
  rcases hs with (⟨p, hp, hs⟩ | hs) | hs
  · obtain ⟨k, hp⟩ := ExpiringCache.mem_objects.mp hp
    exact hl.everySlot_subset hp hs
  · exact l.buffers_subset_releasedSlots hs
  · exact l.tileGrids_subset_releasedSlots hs

section
variable {source : Source} {scene : Scene} {bakes : BakeSettings} {queue : BakeQueue}
  {settings : Settings} {l₀ : Landscape} {acts : List Action}

/-- **Where the live handles are after any run.**  Every live handle is under one slot.  What has
the slot can still be reached, and is released by the landscape if it is cached or in a table; or
it was let go while it had the handle, by an update, a clearing, a queue that was worked off or a
name that lets go of what it holds.  No other action loses a handle. -/
theorem live_of_run (hq : BakeQueue.ofSettings bakes = .ok queue)
    (hl : create source scene queue settings = .ok l₀) (h : l₀.run acts = .ok l)
    (ha : ∀ us, .upload us ∉ acts) {handle : Nat} (live : l.bakery.device.Live handle) :
    ∃ slot, l.bakery.device.handle? slot = some handle ∧
      (∀ other, l.bakery.device.handle? other = some handle → other = slot) ∧
      (slot ∈ l.ownSlots → l.release.2.bakery.device.isResident slot = false) ∧
      (slot ∈ l.reach ∨ l₀.LetsGoOf acts slot handle) := by
  have sound := device_sound_run hq hl h
  obtain ⟨slot, hs⟩ := sound.exists_slot live
  refine ⟨slot, hs, fun other ho => sound.slot_unique ho hs, ?_, ?_⟩
  · exact not_resident_of_ownSlots (kept_run hl h)
  · rcases handle_of_run (kept_create hl) h ha hs with reached | go | ⟨-, before⟩
    · exact .inl reached
    · exact .inr go
    · rw [(pieces_create hq hl).2] at before
      cases before

end

/-- a request for a patch that is not uploaded on its own -/
def unhurried : PatchRequest := { requestAtOrigin Scalar.two 0 with uploadSoon := false }

/-- a patch is uploaded and its composite baked, and only the cache knows of it -/
def worked : List Action :=
  [.get (requestAtOrigin Scalar.two 0) 0 none, .compileQueued 1, .renderFrame 1]

theorem live_of_run_worked : ∃ queue l₀ l slot, BakeQueue.ofSettings ⟨2, 0⟩ = .ok queue ∧
    small = .ok l₀ ∧ l₀.run (worked ++ [.update 6000]) = .ok l ∧ l.bakery.device.Live 1 ∧
    l.bakery.device.handle? slot = some 1 ∧ slot ∉ l.reach ∧
    l₀.LetsGoOf (worked ++ [.update 6000]) slot 1 := by
  obtain ⟨l₀, l, hl, h, ht⟩ := run_small (worked ++ [.update 6000])
    (fun l => decide (l.bakery.device.handle? 0 = some 1 ∧ 0 ∉ l.reach ∧
      1 ≤ l.bakery.device.created ∧ 1 ∉ l.bakery.device.deleted)) (by decide +kernel)
  obtain ⟨hs, unreached, created, kept⟩ := of_decide_eq_true ht
  have hq : BakeQueue.ofSettings ⟨2, 0⟩ = .ok ⟨[], [], 2, 0⟩ := rfl
  have live : l.bakery.device.Live 1 := ⟨le_rfl, created, kept⟩
  obtain ⟨slot, hslot, only, -, known⟩ := live_of_run hq hl h (by simp [worked]) live
  obtain rfl := only 0 hs
  exact ⟨_, l₀, l, 0, hq, hl, h, live, hs, unreached, known.resolve_left unreached⟩

/-- runs that lose handles: the last to know of an object is the cache that expires or is cleared,
a name that lets go or holds something else, or one of the two queues -/
def losingRuns : List (List Action) :=
  [worked ++ [.update 6000], worked ++ [.clear],
    [.get unhurried 0 "patch", .compile "patch", .clear, .drop "patch"],
    [.get unhurried 0 "patch", .compile "patch", .clear, .get unhurried 0 "patch"],
    [.get (requestAtOrigin Scalar.two 0) 0 none, .clear, .compileQueued 1],
    [.get unhurried 0 none, .clear, .renderFrame 1]]

/-- whether some live handle is under no slot that can be reached -/
def loses (l : Landscape) : Bool :=
  (List.range' 1 l.bakery.device.created).any fun handle =>
    !l.bakery.device.wasDeleted handle &&
      l.reach.all fun slot => l.bakery.device.handle? slot != some handle

theorem loses_iff : l.loses = true ↔ ∃ handle, l.bakery.device.Live handle ∧
    ∀ slot ∈ l.reach, l.bakery.device.handle? slot ≠ some handle := by
  simp only [loses, Device.wasDeleted, Device.Live, List.any_eq_true, List.mem_range'_1,
    Nat.lt_one_add_iff, Bool.and_eq_true, Bool.not_eq_true', List.contains_eq_mem,
    decide_eq_false_iff_not, List.all_eq_true, bne_iff_ne, and_assoc]

/-- after each of these runs a live handle is under no slot that can be reached -/
theorem lost_of_run : ∃ l₀ : Landscape, small = .ok l₀ ∧
    ∀ acts ∈ losingRuns, ∃ l, l₀.run acts = .ok l ∧ ∃ handle, l.bakery.device.Live handle ∧
      ∀ slot ∈ l.reach, l.bakery.device.handle? slot ≠ some handle := by
  have all : (small.toOption.any fun l =>
      losingRuns.all fun acts => (l.run acts).toOption.any loses) = true := by
    decide +kernel
  obtain ⟨l₀, hl, all⟩ := exists_ok_of_any all
  refine ⟨l₀, hl, fun acts hacts => ?_⟩
  obtain ⟨l, h, ht⟩ := exists_ok_of_any (List.all_eq_true.mp all acts hacts)
  exact ⟨l, h, loses_iff.mp ht⟩

end Landscape

end TerrainPatches
