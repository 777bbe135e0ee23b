import TerrainPatches.Proofs.Bakery.Frames
import TerrainPatches.Proofs.Landscape.Accounts
import TerrainPatches.Proofs.Landscape.Release

/-!
# Bakes on request

Every action moves the bakery of a landscape in a way that can be read off the landscape and the
action (`moves`): contents are uploaded, composites baked, slots released and composites marked as
not baked.  `bakery_act` says that this is all that it does, apart from the queues.

So a composite is baked by a frame only, and its mark goes with a release of it only
(`baked_of_run`).  Since a composite that is asked for waits in the urgent queue, one frame bakes
it, however long the frame lasts and whatever else waits (`baked_of_request`).
-/

namespace TerrainPatches

/-! ## moves of a bakery -/

namespace Bakery

inductive Move where
  | upload (us : List Upload)
  | bake (c : Shared Composite)
  | release (slots : List ObjectId)
  | unbake (ids : List ObjectId)

def move (b : Bakery) : Move → Bakery
  | .upload us => (b.uploadAll us).2
  | .bake c => (b.bake c).2
  | .release slots => (b.releaseAll slots).2
  | .unbake ids => b.markUnbaked ids

/-- one move after the other -/
def moveAll (b : Bakery) : List Move → Bakery
  | [] => b
  | m :: ms => (b.move m).moveAll ms

/-- the composites that a move marks as not baked -/
def Move.unbaked : Move → List ObjectId
  | .unbake ids => ids
  | _ => []

/-- the slots that a move releases -/
def Move.released : Move → List ObjectId
  | .release slots => slots
  | _ => []

theorem moveAll_bakes (b : Bakery) (cs : List (Shared Composite)) :
    b.moveAll (cs.map .bake) = (b.bakeAll cs).2 := by
  induction cs generalizing b with
  | nil => rfl
  | cons c cs ih => exact ih (b.bake c).2

theorem queue_move (b : Bakery) (queue : BakeQueue) (m : Move) :
    ({ b with queue } : Bakery).move m = { b.move m with queue } := by
  cases m with
  | upload us => rfl
  | bake c =>
    show (({ b with queue } : Bakery).bakeAll [c]).2 = { (b.bakeAll [c]).2 with queue }
    exact b.bakeAll_queue queue [c]
  | release slots => rfl
  | unbake ids => rfl

theorem queue_moveAll (b : Bakery) (ms : List Move) :
    { b.moveAll ms with queue := b.queue } = b.moveAll ms := by
  induction ms generalizing b with
  | nil => rfl
  | cons m ms ih =>
    have kept : b.move m = { b.move m with queue := b.queue } := b.queue_move b.queue m
    have same : (b.move m).queue = b.queue := by rw [kept]
    have rest := ih (b.move m)
    rw [same] at rest
    exact rest

/-- every fact that each move keeps is kept by all of them -/
theorem moveAll_induction {P : Bakery → Prop} {b : Bakery} {ms : List Move} (start : P b)
    (step : ∀ m ∈ ms, ∀ b, P b → P (b.move m)) : P (b.moveAll ms) := by
  induction ms generalizing b with
  | nil => exact start
  | cons m ms ih =>
    exact ih (step m List.mem_cons_self b start) fun n hn => step n (List.mem_cons_of_mem m hn)

theorem baked_move {b : Bakery} {m : Move} {id : ObjectId} (baked : id ∈ b.baked)
    (spared : id ∉ m.unbaked) : id ∈ (b.move m).baked := by
  cases m with
  | upload us => exact baked
  | bake c =>
    show id ∈ (b.bake c).2.baked
    rw [bake_eq]
    exact List.mem_append_right _ baked
  | release slots => exact baked
  | unbake ids =>
    refine List.mem_filter.mpr ⟨baked, ?_⟩
    rw [Bool.not_eq_true', List.contains_eq_mem, decide_eq_false_iff_not]
    exact spared

end Bakery

/-! ## what waits -/

/-- all that waited in a queue still waits in it -/
structure BakeQueue.Keeps (q q' : BakeQueue) : Prop where
  urgent : q.urgent ⊆ q'.urgent
  pending : q.pending ⊆ q'.pending

theorem BakeQueue.Keeps.refl (q : BakeQueue) : q.Keeps q :=
  ⟨List.Subset.refl _, List.Subset.refl _⟩

theorem BakeQueue.Keeps.waiting {q q' : BakeQueue} (h : q.Keeps q') : q.waiting ⊆ q'.waiting :=
  List.append_subset.mpr ⟨List.subset_append_of_subset_left _ h.urgent,
    List.subset_append_of_subset_right _ h.pending⟩

/-- all that waited still waits, and besides it at most one composite -/
def BakeQueue.Admits (q q' : BakeQueue) (c : Shared Composite) : Prop :=
  q.Keeps q' ∧ ∀ d ∈ q'.waiting, d ∈ q.waiting ∨ d = c

theorem Bakery.add_admits {b b' : Bakery} {c : Shared Composite} {urgent : Bool}
    (h : b.add c urgent = .ok b') : ∃ queue, b' = { b with queue } ∧ b.queue.Admits queue c := by
  rcases add_cases b c urgent with ⟨-, hadd⟩ | ⟨-, -, hadd⟩ | ⟨-, -, hadd⟩
  · rw [hadd] at h
    cases h
    refine ⟨_, rfl, ⟨List.subset_append_left _ _, List.Subset.refl _⟩, ?_⟩
    intro d hd
    simp only [BakeQueue.waiting, BakeQueue.addUrgent, List.mem_append, List.mem_singleton] at hd ⊢
    tauto
  · rw [hadd] at h
    cases h
    refine ⟨_, rfl, ⟨List.Subset.refl _, List.subset_append_left _ _⟩, ?_⟩
    intro d hd
    simp only [BakeQueue.waiting, List.mem_append, List.mem_singleton] at hd ⊢
    tauto
  · rw [hadd] at h
    cases h

theorem BakeQueue.admits_self (q : BakeQueue) (c : Shared Composite) : q.Admits q c :=
  ⟨.refl q, fun _ hd => .inl hd⟩

theorem Bakery.offer_admits (b : Bakery) (c : Shared Composite) :
    ∃ queue, b.offer c = { b with queue } ∧ b.queue.Admits queue c := by
  unfold offer
  split
  · exact ⟨b.queue, rfl, b.queue.admits_self c⟩
  · next h => exact add_admits h

/-! ## moves of an action -/

namespace Landscape

variable {l l' : Landscape} {r : PatchRequest} {p : Shared Patch}

/-- what an action does to the bakery, apart from its queues -/
def moves (l : Landscape) : Action → List Bakery.Move
  | .compile name => (l.holders.get? name).toList.flatMap fun p => [.upload p.val.uploads]
  | .compileQueued limit => ((l.uploadQueue.getD []).take limit).map fun p => .upload p.val.uploads
  | .upload us => [.upload us]
  | .renderFrame lasts => (l.bakery.taken lasts).map .bake
  | .release => [.release l.releasedSlots, .unbake l.cachedComposites]
  | .releasePatch name => (l.holders.get? name).toList.flatMap fun p =>
      [.release p.val.slots, .unbake p.val.compositeIds]
  | .releaseComposite name => (l.holders.get? name).toList.flatMap fun p =>
      p.val.composite.toList.flatMap fun c => [.release c.val.slots, .unbake [c.id]]
  | .releaseBuffers => [.release l.workshop.buffers.slots]
  | .releaseTileGrids => [.release l.workshop.tileGridSlots]
  | _ => []

/-- the patches that are cached, held or waiting for their upload -/
def patches (l : Landscape) : List (Shared Patch) :=
  l.cache.objects ++ l.holders.held.map (·.2) ++ l.uploadQueue.getD []

theorem mem_patches_of_held {name : String} (h : l.holders.get? name = some p) :
    p ∈ l.patches := by
  have held : p ∈ l.holders.held.map (·.2) := List.mem_map_of_mem (mem_of_lookup h)
  exact List.mem_append_left _ (List.mem_append_right _ held)

/-- the bakery has made these moves; besides, composites of patches may wait now that did not -/
def Moved (l : Landscape) (ms : List Bakery.Move) (l' : Landscape) : Prop :=
  ∃ queue, l'.bakery = { l.bakery.moveAll ms with queue } ∧
    l.bakery.queue.Keeps queue ∧
    ∀ c ∈ queue.waiting, c ∈ l.bakery.queue.waiting ∨ ∃ p ∈ l'.patches, p.val.composite = some c

theorem moved_of_eq {ms : List Bakery.Move} (h : l'.bakery = l.bakery.moveAll ms) :
    Moved l ms l' :=
  ⟨l.bakery.queue, by rw [h, ← Bakery.queue_moveAll], .refl _, fun _ hc => .inl hc⟩

theorem moved_of_admits {queue : BakeQueue} {c : Shared Composite} (hp : p ∈ l'.patches)
    (hc : p.val.composite = some c) (hb : l'.bakery = { l.bakery with queue })
    (h : l.bakery.queue.Admits queue c) : Moved l [] l' := by
  refine ⟨queue, hb, h.1, fun d hd => (h.2 d hd).imp_right ?_⟩
  rintro rfl
  exact ⟨p, hp, hc⟩

theorem moved_withHeld {name : String} {f : Shared Patch → Landscape}
    {ms : Shared Patch → List Bakery.Move}
    (h : ∀ p, l.holders.get? name = some p → Moved l (ms p) (f p)) :
    Moved l ((l.holders.get? name).toList.flatMap ms) (l.withHeld name f) := by
  unfold withHeld
  cases hp : l.holders.get? name with
  | none => exact moved_of_eq rfl
  | some p =>
    rw [Option.toList_some, List.flatMap_singleton]
    exact h p hp

theorem moved_of_held {name : String} {f : Shared Patch → Landscape}
    (h : ∀ p, l.holders.get? name = some p → Moved l [] (f p)) : Moved l [] (l.withHeld name f) := by
  have moved : Moved l ((l.holders.get? name).toList.flatMap fun _ => []) (l.withHeld name f) :=
    moved_withHeld h
  rwa [List.flatMap_eq_nil_iff.mpr fun _ _ => rfl] at moved

/-! ## new patches -/

/-- a patch is painted without the device; a composite made for it is offered -/
theorem bakery_skin {sibling : Option (Shared Patch)} {baked : Bool} {skin : Skin}
    (h : l.skin r sibling baked = .ok (skin, l')) :
    l'.bakery = l.bakery ∨ ∃ c, skin.composite = some c ∧ l'.bakery = l.bakery.offer c := by
  cases sibling with
  | some q =>
    cases h
    exact .inl rfl
  | none =>
    cases baked with
    | false =>
      cases h
      exact .inl rfl
    | true =>
      obtain ⟨target, w₁, c, w₂, -, -, hcomposite, -, rfl⟩ := bakedSkin_eq_ok h
      exact .inr ⟨_, hcomposite, rfl⟩

theorem bakery_build {sibling : Option (Shared Patch)} {patch : Patch}
    (h : l.build r sibling = .ok (patch, l')) :
    l'.bakery = l.bakery ∨ ∃ c, patch.composite = some c ∧ l'.bakery = l.bakery.offer c := by
  obtain ⟨shape, l₁, n, skin, hshape, -, -, hskin, rfl⟩ := build_eq_ok h
  have before : l₁.bakery = l.bakery := by
    cases sibling with
    | some q =>
      cases hshape
      rfl
    | none =>
      obtain ⟨⟨v, requests⟩, -, hshape⟩ := Fault.bind_eq_ok.mp hshape
      cases hshape
      rfl
  rw [← before]
  exact bakery_skin (l := l₁.withBuffers n r.seams) hskin

theorem mem_objects_of_get {now : Nat} (h : l.get r now = .ok (p, l')) :
    p ∈ l'.cache.objects := by
  refine ExpiringCache.mem_objects.mpr ⟨r.key, ?_⟩
  rcases get_cases h with ⟨hp, rfl⟩ | ⟨-, hmiss⟩
  · exact ExpiringCache.mem_toList_of_get? hp
  · obtain ⟨patch, l₁, -, -, rfl⟩ := miss_eq_ok hmiss
    exact ExpiringCache.mem_toList_insert_self _ _ _ _

theorem moved_get {now : Nat} {l₁ : Landscape} (h : l.get r now = .ok (p, l₁))
    (hp : p ∈ l'.patches) (same : l'.bakery = l₁.bakery) : Moved l [] l' := by
  rcases get_cases h with ⟨-, rfl⟩ | ⟨-, hmiss⟩
  · exact moved_of_eq same
  · obtain ⟨patch, l₂, hbuild, rfl, rfl⟩ := miss_eq_ok hmiss
    rcases bakery_build hbuild with hb | ⟨c, hc, hb⟩
    · exact moved_of_eq (same.trans hb)
    · obtain ⟨queue, hoffer, admits⟩ := l.bakery.offer_admits c
      exact moved_of_admits hp hc (same.trans (hb.trans hoffer)) admits

/-! ## the other actions -/

theorem moved_requestBake (hp : p ∈ l.patches) : Moved l [] (l.requestBake p).2 := by
  unfold requestBake
  cases hc : p.val.composite with
  | none => exact moved_of_eq rfl
  | some c =>
    dsimp only
    split
    · exact moved_of_eq rfl
    · obtain ⟨queue, hadd, admits⟩ := Bakery.add_admits (show l.bakery.add c true = _ from rfl)
      exact moved_of_admits (p := p) hp hc hadd admits

theorem moved_addComposite (hp : p ∈ l.patches) (urgent : Bool) :
    Moved l [] (l.withComposite p fun c => l.addComposite c urgent) := by
  unfold withComposite
  split
  · next c hc =>
    cases hadd : l.bakery.add c urgent with
    | error e => exact moved_of_eq (by simp only [addComposite, hadd]; rfl)
    | ok b =>
      obtain ⟨queue, hb, admits⟩ := Bakery.add_admits hadd
      exact moved_of_admits (p := p) hp hc (by simp only [addComposite, hadd]; exact hb) admits
  · exact moved_of_eq rfl

theorem bakery_compileAll (l : Landscape) (ps : List (Shared Patch)) :
    (l.compileAll ps).bakery = l.bakery.moveAll (ps.map fun p => .upload p.val.uploads) := by
  induction ps generalizing l with
  | nil => rfl
  | cons p ps ih => exact ih (l.compile p).2

theorem bakery_compileQueued (l : Landscape) (limit : Nat) :
    (l.compileQueued limit).2.bakery = l.bakery.moveAll (l.moves (.compileQueued limit)) := by
  unfold compileQueued
  cases hq : l.uploadQueue with
  | none => simp only [moves, hq, Option.getD_none, List.take_nil]; rfl
  | some q => simp only [moves, hq]; exact bakery_compileAll _ _

theorem bakery_releasePatch (l : Landscape) (p : Shared Patch) : (l.releasePatch p).2.bakery =
    l.bakery.moveAll [.release p.val.slots, .unbake p.val.compositeIds] := by
  show (releasePatches l.bakery [p]).2 = _
  unfold releasePatches
  rw [List.flatMap_singleton, List.flatMap_singleton]
  rfl

theorem bakery_releaseComposite (l : Landscape) (p : Shared Patch) :
    (l.withComposite p fun c => (l.bakery.release c).2).bakery =
      l.bakery.moveAll
        (p.val.composite.toList.flatMap fun c => [.release c.val.slots, .unbake [c.id]]) := by
  unfold withComposite
  cases p.val.composite <;> rfl

/-- **What an action does to the bakery.**  A frame lets go of what it takes out of the queues; any
other action only adds to them. -/
theorem bakery_act {a : Action} (h : l.act a = .ok l') :
    Moved l (l.moves a) l' ∨ ∃ lasts, a = .renderFrame lasts ∧
      l'.bakery = { l.bakery.moveAll (l.moves a) with
        queue := { l.bakery.queue with
          urgent := [], pending := l.bakery.queue.pending.drop lasts } } := by
  cases a with
  | get r now name =>
    obtain ⟨⟨p, l₁⟩, hget, h⟩ := Fault.bind_eq_ok.mp h
    have cached := mem_objects_of_get hget
    cases name <;> cases h <;>
      exact .inl (moved_get hget (List.mem_append_left _ (List.mem_append_left _ cached)) rfl)
  | drop name => cases h; exact .inl (moved_of_eq rfl)
  | setNodeMask mask => cases h; exact .inl (moved_of_eq rfl)
  | update now => cases h; exact .inl (moved_of_eq rfl)
  | clear => cases h; exact .inl (moved_of_eq rfl)
  | enqueue name =>
    cases h
    refine .inl (moved_of_eq ?_)
    unfold withHeld
    split <;> rfl
  | compile name => cases h; exact .inl (moved_withHeld fun p _ => moved_of_eq rfl)
  | compileQueued limit => cases h; exact .inl (moved_of_eq (l.bakery_compileQueued limit))
  | upload us => cases h; exact .inl (moved_of_eq rfl)
  | requestBake name =>
    cases h
    exact .inl (moved_of_held fun p hp => moved_requestBake (mem_patches_of_held hp))
  | addComposite name urgent =>
    cases h
    exact .inl (moved_of_held fun p hp => moved_addComposite (mem_patches_of_held hp) urgent)
  | renderFrame lasts =>
    cases h
    refine .inr ⟨lasts, rfl, ?_⟩
    rw [moves, Bakery.moveAll_bakes]
    exact l.bakery.renderFor_bakery lasts
  | release =>
    cases h
    refine .inl (moved_of_eq ?_)
    rw [release_eq]
    rfl
  | releasePatch name =>
    cases h
    exact .inl (moved_withHeld fun p _ => moved_of_eq (l.bakery_releasePatch p))
  | releaseComposite name =>
    cases h
    exact .inl (moved_withHeld fun p _ => moved_of_eq (l.bakery_releaseComposite p))
  | releaseBuffers => cases h; exact .inl (moved_of_eq rfl)
  | releaseTileGrids => cases h; exact .inl (moved_of_eq rfl)

theorem moveAll_act {a : Action} (h : l.act a = .ok l') :
    ∃ queue, l'.bakery = { l.bakery.moveAll (l.moves a) with queue } := by
  rcases bakery_act h with ⟨queue, hb, -⟩ | ⟨lasts, -, hb⟩ <;> exact ⟨_, hb⟩

/-! ## bakes in a run -/

/-- the composites that an action draws -/
def drawnAt (l : Landscape) : Action → List (Shared Composite)
  | .renderFrame lasts => l.bakery.drawnOf (l.bakery.taken lasts)
  | _ => []

/-- the composites that a run draws -/
def drawnIn (l : Landscape) (acts : List Action) : List (Shared Composite) :=
  (l.trace acts).flatMap fun s => s.1.drawnAt s.2

/-- the composites that an action marks as not baked, which it does when it releases them -/
def unbakedAt (l : Landscape) (a : Action) : List ObjectId :=
  (l.moves a).flatMap Bakery.Move.unbaked

/-- the composites that a run marks as not baked -/
def unbakedIn (l : Landscape) (acts : List Action) : List ObjectId :=
  (l.trace acts).flatMap fun s => s.1.unbakedAt s.2

/-- a frame releases nothing -/
theorem unbakedAt_renderFrame (l : Landscape) (lasts : Nat) :
    l.unbakedAt (.renderFrame lasts) = [] := by
  refine List.flatMap_eq_nil_iff.mpr fun m hm => ?_
  obtain ⟨c, -, rfl⟩ := List.mem_map.mp hm
  rfl

/-- what is baked is not drawn -/
theorem not_mem_drawnAt {id : ObjectId} (a : Action) (baked : id ∈ l.bakery.baked) :
    ∀ d ∈ l.drawnAt a, d.id ≠ id := by
  intro d hd same
  cases a with
  | renderFrame lasts =>
    have due : l.bakery.due id = 0 := if_pos baked
    have once := l.bakery.due_renderFor lasts id
    have drawn : 0 < (l.bakery.drawnOf (l.bakery.taken lasts)).countP (·.id == id) :=
      List.countP_pos_iff.mpr ⟨d, hd, beq_iff_eq.mpr same⟩
    omega
  | _ => exact absurd hd List.not_mem_nil

/-- only a release of a composite takes its mark away -/
theorem baked_act {a : Action} {id : ObjectId} (h : l.act a = .ok l')
    (baked : id ∈ l.bakery.baked) (spared : id ∉ l.unbakedAt a) : id ∈ l'.bakery.baked := by
  obtain ⟨queue, hb⟩ := moveAll_act h
  rw [hb]
  refine Bakery.moveAll_induction (P := fun b => id ∈ b.baked) baked fun m hm b hb => ?_
  exact Bakery.baked_move hb fun hid => spared (List.mem_flatMap.mpr ⟨m, hm, hid⟩)

/-- what every action that a run takes keeps holds before each of them and at the end -/
theorem trace_induction {P : Landscape → Prop} {acts : List Action} (h : l.run acts = .ok l')
    (start : P l)
    (step : ∀ s ∈ l.trace acts, ∀ l' : Landscape, s.1.act s.2 = .ok l' → P s.1 → P l') :
    P l' ∧ ∀ s ∈ l.trace acts, P s.1 := by
  induction acts generalizing l with
  | nil =>
    cases h
    exact ⟨start, fun s hs => absurd hs List.not_mem_nil⟩
  | cons a acts ih =>
    obtain ⟨l₁, h₁, h⟩ := Fault.bind_eq_ok.mp h
    rw [trace_cons acts h₁] at step ⊢
    obtain ⟨last, before⟩ := ih h (step (l, a) List.mem_cons_self l₁ h₁ start) fun s hs =>
      step s (List.mem_cons_of_mem _ hs)
    refine ⟨last, fun s hs => ?_⟩
    cases List.mem_cons.mp hs with
    | inl first => rwa [first]
    | inr later => exact before s later

theorem not_mem_unbakedAt {acts : List Action} {id : ObjectId} (spared : id ∉ l.unbakedIn acts)
    {s : Landscape × Action} (hs : s ∈ l.trace acts) : id ∉ s.1.unbakedAt s.2 :=
  fun hid => spared (List.mem_flatMap.mpr ⟨s, hs, hid⟩)

/-- **A composite that is baked stays so, and is not drawn again, until it is released.** -/
theorem baked_of_run {acts : List Action} {id : ObjectId} (h : l.run acts = .ok l')
    (baked : id ∈ l.bakery.baked) (spared : id ∉ l.unbakedIn acts) :
    id ∈ l'.bakery.baked ∧ ∀ d ∈ l.drawnIn acts, d.id ≠ id := by
  obtain ⟨last, before⟩ := trace_induction (P := fun l => id ∈ l.bakery.baked) h baked
    fun s hs _ hact hb => baked_act hact hb (not_mem_unbakedAt spared hs)
  refine ⟨last, fun d hd => ?_⟩
  obtain ⟨s, hs, hd⟩ := List.mem_flatMap.mp hd
  exact not_mem_drawnAt s.2 (before s hs) d hd

/-- whether a composite is baked or will be by the next frame -/
def Awaits (l : Landscape) (c : Shared Composite) : Prop :=
  c.id ∈ l.bakery.baked ∨ c ∈ l.bakery.queue.urgent

theorem baked_renderFrame {lasts : Nat} {c : Shared Composite} (h : l.Awaits c) :
    c.id ∈ (l.bakery.renderFor lasts).2.baked := by
  refine List.contains_iff_mem.mp ((l.bakery.isBaked_renderFor (d := c)).mpr (h.imp ?_ fun hc => ?_))
  · exact List.contains_iff_mem.mpr
  · exact ⟨c, List.mem_append_left _ hc, rfl⟩

theorem awaits_act {a : Action} {c : Shared Composite} (h : l.act a = .ok l') (hc : l.Awaits c)
    (spared : c.id ∉ l.unbakedAt a) : l'.Awaits c := by
  rcases bakery_act h with ⟨queue, hb, keeps, -⟩ | ⟨lasts, rfl, -⟩
  · refine hc.imp (fun baked => baked_act h baked spared) fun waits => ?_
    rw [hb]
    exact keeps.urgent waits
  · cases h
    exact .inl (baked_renderFrame hc)

theorem awaits_run {acts : List Action} {c : Shared Composite} (h : l.run acts = .ok l')
    (hc : l.Awaits c) (spared : c.id ∉ l.unbakedIn acts) : l'.Awaits c :=
  (trace_induction (P := fun l => l.Awaits c) h hc fun _ hs _ hact hb =>
    awaits_act hact hb (not_mem_unbakedAt spared hs)).1

theorem requestBake_eq {c : Shared Composite} (hc : p.val.composite = some c) :
    l.requestBake p = if l.bakery.isBaked c then (false, l)
      else (true, { l with bakery := { l.bakery with queue := l.bakery.queue.addUrgent c } }) := by
  simp only [requestBake, hc]

theorem awaits_requestBake {c : Shared Composite} (hc : p.val.composite = some c) :
    (l.requestBake p).2.Awaits c := by
  rw [requestBake_eq hc]
  split
  · next baked => exact .inl (List.contains_iff_mem.mp baked)
  · exact .inr (List.mem_append_right _ List.mem_cons_self)

/-- **A composite that is asked for is baked by the next frame,** in any landscape, whether its
patch is cached or not, however long the frame lasts and whatever else waits or is done before it,
as long as the composite is not released.  Asking says whether the bake was needed.  From then on,
until the composite is released, every patch that shares it is told that no bake is needed, and it
is not drawn. -/
theorem baked_of_request (l : Landscape) {p : Shared Patch} {c : Shared Composite}
    (hc : p.val.composite = some c) :
    (l.requestBake p).1 = !l.bakery.isBaked c ∧
    ∀ before lasts l₁ l₂, (l.requestBake p).2.run before = .ok l₁ →
      c.id ∉ (l.requestBake p).2.unbakedIn before → l₁.act (.renderFrame lasts) = .ok l₂ →
      l₂.bakery.isBaked c = true ∧
      ∀ after l₃, l₂.run after = .ok l₃ → c.id ∉ l₂.unbakedIn after →
        l₃.bakery.isBaked c = true ∧ (∀ d ∈ l₂.drawnIn after, d.id ≠ c.id) ∧
        ∀ q d, q.val.composite = some d → d.id = c.id → l₃.requestBake q = (false, l₃) := by
  refine ⟨?_, ?_⟩
  · rw [requestBake_eq hc]
    cases l.bakery.isBaked c <;> rfl
  · intro before lasts l₁ l₂ h₁ spared hframe
    have baked : c.id ∈ l₂.bakery.baked := by
      cases hframe
      exact baked_renderFrame (awaits_run h₁ (awaits_requestBake hc) spared)
    refine ⟨List.contains_iff_mem.mpr baked, ?_⟩
    intro after l₃ h₃ spared
    obtain ⟨stays, undrawn⟩ := baked_of_run h₃ baked spared
    refine ⟨List.contains_iff_mem.mpr stays, undrawn, ?_⟩
    intro q d hd same
    have known : l₃.bakery.isBaked d = true := by
      rw [Bakery.isBaked, same]
      exact List.contains_iff_mem.mpr stays
    rw [requestBake_eq hd, if_pos known]

/-- a patch with a copy; their composite is baked and released, and the patch is forgotten -/
def releasedOnce : List Action :=
  [.get (requestAtOrigin Scalar.two 0) 0 none, .get (requestAtOrigin Scalar.two 1) 0 "copy",
    .renderFrame 1, .release, .clear]

theorem baked_of_request_releasedOnce : ∃ l l₁ l₂ : Landscape, ∃ p c, small = .ok l ∧
    l.run releasedOnce = .ok l₁ ∧ l₁.holders.get? "copy" = some p ∧ p.val.composite = some c ∧
    l₁.bakery.isBaked c = false ∧ (l₁.requestBake p).1 = true ∧
    (l₁.requestBake p).2.run [.update 6000, .renderFrame 0] = .ok l₂ ∧
    l₂.bakery.isBaked c = true ∧ l₂.requestBake p = (false, l₂) ∧
    ∀ d ∈ l₂.drawnIn [.requestBake "copy", .renderFrame 1], d.id ≠ c.id := by
  obtain ⟨l, l₁, hl, h₁, ht⟩ := run_small releasedOnce
    (fun l => (l.holders.get? "copy").any fun p => p.val.composite.any fun c =>
      !l.bakery.isBaked c) (by decide +kernel)
  obtain ⟨p, hp, ht⟩ := (Option.any_eq_true _ _).mp ht
  obtain ⟨c, hc, ht⟩ := (Option.any_eq_true _ _).mp ht
  rw [Bool.not_eq_true'] at ht
  obtain ⟨asked, served⟩ := baked_of_request l₁ hc
  rw [ht] at asked
  obtain ⟨l₂, hframe⟩ : ∃ l₂, ((l₁.requestBake p).2.update 6000).2.act (.renderFrame 0) = .ok l₂ :=
    ⟨_, rfl⟩
  obtain ⟨baked, after⟩ := served [.update 6000] 0 _ l₂ rfl List.not_mem_nil hframe
  obtain ⟨-, -, again⟩ := after [] l₂ rfl List.not_mem_nil
  have spared : l₂.unbakedIn [.requestBake "copy", .renderFrame 1] = [] := by
    show [] ++ (unbakedAt _ (.renderFrame 1) ++ []) = []
    rw [unbakedAt_renderFrame]
    rfl
  obtain ⟨-, undrawn, -⟩ := after _ _ rfl (spared ▸ List.not_mem_nil)
  exact ⟨l, l₁, l₂, p, c, hl, h₁, hp, hc, ht, asked, hframe, baked, again p c hc rfl, undrawn⟩

end Landscape

end TerrainPatches
