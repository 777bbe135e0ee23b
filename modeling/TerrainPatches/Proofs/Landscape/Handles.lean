import TerrainPatches.Proofs.Device.Handles
import TerrainPatches.Proofs.Landscape.Bakes
import TerrainPatches.Proofs.Workshop.Pieces

/-!
# Who has which handle

Every piece that is in use has a slot of its own (`booked_run`): nothing that is built, copied,
forgotten or taken out of a queue gives a slot to two pieces.  A device that is sound stays so by
whatever a landscape does with it, so every handle that is resident under the slot of a piece is
live and belongs to no other piece (`handles_of_run`).
-/

namespace TerrainPatches

namespace Landscape

variable {l l' : Landscape} {r : PatchRequest} {sibling : Option (Shared Patch)}
  {p : Shared Patch}

/-! ## a new patch -/

theorem makes_shapeOf (w : Workshop) (v : Vertices) (owner : ObjectId) :
    w.Makes (shapeOf w v).2 [.vertices owner 0 (shapeOf w v).1.positions.slot,
      .vertices owner 1 (shapeOf w v).1.normals.slot,
      .vertices owner 2 (shapeOf w v).1.colors.slot] :=
  ((w.makes_vertexArray v.positions owner 0).trans
    (Workshop.makes_vertexArray _ v.normals owner 1)).trans
      (Workshop.makes_vertexArray _ v.colors owner 2)

theorem makes_shape {shape : Shape} {baked : Bool}
    (h : l.shape r sibling baked = .ok (shape, l')) (owner : ObjectId) :
    l.workshop.Makes l'.workshop [.vertices owner 0 shape.positions.slot,
      .vertices owner 1 shape.normals.slot, .vertices owner 2 shape.colors.slot] := by
  cases sibling with
  | some q =>
    cases h
    exact makes_shapeOf l.workshop (verticesOf q.val) owner
  | none =>
    obtain ⟨⟨v, requests⟩, -, h⟩ := Fault.bind_eq_ok.mp h
    cases h
    exact makes_shapeOf { l.workshop with requests } v owner

def Skin.pieces (s : Skin) : List Piece :=
  s.passes.val.flatMap Pass.pieces ++ s.composite.toList.flatMap Shared.compositePieces

theorem makes_bakedSkin {skin : Skin} (h : l.bakedSkin r = .ok (skin, l')) :
    l.workshop.Makes l'.workshop skin.pieces := by
  obtain ⟨target, w₁, c, w₂, htarget, hc, hcomposite, hpasses, rfl⟩ := bakedSkin_eq_ok h
  have first : l.workshop.Makes w₁ [.texture target] := by
    cases htarget
    exact l.workshop.makes_shared _
  obtain ⟨htarget, draws⟩ := Workshop.makes_composite hc
  -- the composite gets its name last, so its arrays are owned by the identity that comes next
  have made := ((first.trans (draws w₂.supply.next)).trans (w₂.makes_name c)).trans
    (Workshop.makes_name _ (Workshop.bakedPasses l.site.scene target))
  refine made.of_subset (List.subset_append_of_subset_right _ ?_)
  have sampled : (Workshop.bakedPasses l.site.scene target).flatMap Pass.pieces
      ⊆ [.texture target] := Workshop.pieces_ofLayers _ [.plain target] [] _ _
  have composite : (w₂.share c).1.compositePieces
      = .texture target :: drawPieces w₂.supply.next 0 c.draws := by
    rw [← htarget]
    rfl
  rw [Skin.pieces, hcomposite, hpasses, Option.toList_some, List.flatMap_singleton, composite,
    List.append_nil, List.append_nil]
  exact List.append_subset.mpr ⟨List.subset_append_of_subset_left _ sampled, List.Subset.refl _⟩

theorem makes_skin {skin : Skin} {baked : Bool} (h : l.skin r none baked = .ok (skin, l')) :
    l.workshop.Makes l'.workshop skin.pieces := by
  cases baked with
  | true => exact makes_bakedSkin h
  | false =>
    cases h
    have made := l.workshop.makes_passes l.site (l.site.place r.size r.center.number) false
    exact made.trans (Workshop.makes_name _ _)

/-- the pieces of a new patch are made for it, or they are its sibling's -/
theorem makes_build {patch : Patch} (h : l.build r sibling = .ok (patch, l')) (id : ObjectId) :
    ∃ xs, l.workshop.Makes l'.workshop xs ∧
      Shared.patchPieces ⟨id, patch⟩ ⊆ xs ++ sibling.toList.flatMap Shared.patchPieces := by
  obtain ⟨shape, l₁, n, skin, hshape, -, -, hskin, rfl⟩ := build_eq_ok h
  have own := ((makes_shape hshape id).trans
    (l₁.workshop.makes_indexBuffer n r.seams)).trans (Workshop.makes_uvBuffer _ n)
  cases sibling with
  | some q =>
    cases hskin
    refine ⟨_, own, ?_⟩
    intro x hx
    simp only [Shared.patchPieces, Option.toList_some, List.flatMap_singleton, List.mem_append,
      List.mem_cons] at hx ⊢
    tauto
  | none =>
    refine ⟨_, own.trans (makes_skin hskin), ?_⟩
    intro x hx
    simp only [Shared.patchPieces, Skin.pieces, List.mem_append, List.mem_cons] at hx ⊢
    tauto

/-! ## the patches in use -/

theorem patches_subset {ps : List (Shared Patch)} (cache : l'.cache.objects ⊆ ps)
    (held : l'.holders.held.map (·.2) ⊆ ps) (queued : l'.uploadQueue.getD [] ⊆ ps) :
    l'.patches ⊆ ps :=
  List.append_subset.mpr ⟨List.append_subset.mpr ⟨cache, held⟩, queued⟩

theorem objects_subset (l : Landscape) : l.cache.objects ⊆ l.patches :=
  List.subset_append_of_subset_left _ (List.subset_append_left _ _)

theorem held_subset (l : Landscape) : l.holders.held.map (·.2) ⊆ l.patches :=
  List.subset_append_of_subset_left _ (List.subset_append_right _ _)

theorem queued_subset (l : Landscape) : l.uploadQueue.getD [] ⊆ l.patches :=
  List.subset_append_right _ _

/-- the pieces of a patch that was not cached are made for it, or they are another patch's -/
theorem makes_miss {now : Nat} (hl : l.Kept) (h : l.miss r now = .ok (p, l')) :
    ∃ xs, l.workshop.Makes l'.workshop xs ∧
      p.patchPieces ⊆ xs ++ l.patches.flatMap Shared.patchPieces := by
  obtain ⟨patch, l₁, hbuild, rfl, rfl⟩ := miss_eq_ok h
  obtain ⟨xs, made, hxs⟩ := makes_build hbuild l₁.workshop.supply.next
  refine ⟨xs ++ [], made.trans (l₁.workshop.makes_name patch), ?_⟩
  rw [List.append_nil]
  refine List.Subset.trans hxs (List.append_subset.mpr ⟨List.subset_append_left _ _, ?_⟩)
  intro x hx
  obtain ⟨q, hq, hx⟩ := List.mem_flatMap.mp hx
  obtain ⟨k, hk, -⟩ := mem_of_sibling? hl.ordered (Option.mem_toList.mp hq)
  have cached : q ∈ l.patches := l.objects_subset (ExpiringCache.mem_objects.mpr ⟨k, hk⟩)
  exact List.mem_append_right _ (List.mem_flatMap.mpr ⟨q, cached, hx⟩)

theorem queued_append_subset {queue : Option (List (Shared Patch))} {ps : List (Shared Patch)}
    (h : queue.getD [] ⊆ ps) (hp : p ∈ ps) : (queue.map (· ++ [p])).getD [] ⊆ ps := by
  cases queue with
  | none => exact List.nil_subset _
  | some q => exact List.append_subset.mpr ⟨h, List.cons_subset.mpr ⟨hp, List.nil_subset _⟩⟩

theorem patches_miss {now : Nat} (h : l.miss r now = .ok (p, l')) :
    l'.patches ⊆ p :: l.patches := by
  obtain ⟨patch, l₁, hbuild, hp, rfl⟩ := miss_eq_ok h
  obtain ⟨w, c, b, rfl, -⟩ := builds_build hbuild
  have before : l.patches ⊆ p :: l.patches := List.subset_cons_self _ _
  refine patches_subset ?_ (List.Subset.trans l.held_subset before) ?_
  · intro q hq
    obtain ⟨k, hq⟩ := ExpiringCache.mem_objects.mp hq
    cases ExpiringCache.mem_toList_insert hq with
    | inl new =>
      cases new
      exact List.mem_cons_self
    | inr old => exact before (l.objects_subset (ExpiringCache.mem_objects.mpr ⟨k, old⟩))
  · have queued := List.Subset.trans l.queued_subset before
    dsimp only
    split
    · exact queued_append_subset queued List.mem_cons_self
    · exact queued

theorem patches_hold (l : Landscape) (name : String) (p : Shared Patch) :
    (l.hold name p).patches ⊆ p :: l.patches := by
  have before : l.patches ⊆ p :: l.patches := List.subset_cons_self _ _
  refine patches_subset (List.Subset.trans l.objects_subset before) ?_
    (List.Subset.trans l.queued_subset before)
  exact List.cons_subset_cons _ (List.Subset.trans
    (List.map_subset _ (List.filter_subset_self _)) l.held_subset)

/-- the actions that touch nothing but the bakery -/
def Action.atBakery : Action → Bool
  | .compile _ | .upload _ | .requestBake _ | .addComposite _ _ | .renderFrame _ => true
  | .release | .releasePatch _ | .releaseComposite _ | .releaseBuffers | .releaseTileGrids => true
  | _ => false

theorem withHeld_bakery {name : String} {f : Shared Patch → Landscape}
    (h : ∀ p, ∃ bakery, f p = { l with bakery }) :
    ∃ bakery, l.withHeld name f = { l with bakery } := by
  unfold withHeld
  split
  · exact h _
  · exact ⟨l.bakery, rfl⟩

theorem withComposite_bakery (p : Shared Patch) (f : Shared Composite → Bakery) :
    ∃ bakery, l.withComposite p f = { l with bakery } := by
  unfold withComposite
  split
  · exact ⟨_, rfl⟩
  · exact ⟨l.bakery, rfl⟩

theorem act_atBakery {a : Action} (h : l.act a = .ok l') (ha : a.atBakery = true) :
    ∃ bakery, l' = { l with bakery } := by
  cases a with
  | compile name => cases h; exact withHeld_bakery fun p => ⟨_, rfl⟩
  | upload us => cases h; exact ⟨_, rfl⟩
  | requestBake name =>
    cases h
    refine withHeld_bakery fun p => ?_
    unfold requestBake
    split
    · exact ⟨l.bakery, rfl⟩
    · split <;> exact ⟨_, rfl⟩
  | addComposite name urgent => cases h; exact withHeld_bakery fun p => withComposite_bakery p _
  | renderFrame lasts => cases h; exact ⟨_, rfl⟩
  | release => cases h; exact ⟨_, rfl⟩
  | releasePatch name => cases h; exact withHeld_bakery fun p => ⟨_, rfl⟩
  | releaseComposite name => cases h; exact withHeld_bakery fun p => withComposite_bakery p _
  | releaseBuffers => cases h; exact ⟨_, rfl⟩
  | releaseTileGrids => cases h; exact ⟨_, rfl⟩
  | _ => cases ha

/-- no piece and no patch is in `l'` that is not in `l` -/
structure Narrows (l l' : Landscape) : Prop where
  supply : l'.workshop.supply = l.workshop.supply
  pieces : l'.workshop.pieces ⊆ l.workshop.pieces
  patches : l'.patches ⊆ l.patches

theorem narrows_bakery (l : Landscape) (bakery : Bakery) : Narrows l { l with bakery } :=
  ⟨rfl, List.Subset.refl _, List.Subset.refl _⟩

theorem compileAll_eq (l : Landscape) (ps : List (Shared Patch)) :
    l.compileAll ps = { l with bakery := (l.compileAll ps).bakery } := by
  induction ps generalizing l with
  | nil => rfl
  | cons p ps ih => exact ih (l.compile p).2

theorem narrows_compileQueued (l : Landscape) (limit : Nat) :
    Narrows l (l.compileQueued limit).2 := by
  unfold compileQueued
  split
  · exact narrows_bakery l l.bakery
  · next q hq =>
    rw [compileAll_eq]
    refine ⟨rfl, List.Subset.refl _, patches_subset l.objects_subset l.held_subset ?_⟩
    have queued := l.queued_subset
    rw [hq] at queued
    exact List.Subset.trans (List.drop_subset _ _) queued

theorem narrows_enqueue (hp : p ∈ l.patches) : Narrows l (l.enqueue p) :=
  ⟨rfl, List.Subset.refl _, patches_subset l.objects_subset l.held_subset
    (queued_append_subset l.queued_subset hp)⟩

theorem narrows_drop (l : Landscape) (name : String) : Narrows l (l.drop name) := by
  refine ⟨rfl, List.Subset.refl _, patches_subset l.objects_subset ?_ l.queued_subset⟩
  exact List.Subset.trans (List.map_subset _ (List.filter_subset_self _)) l.held_subset

theorem narrows_update (l : Landscape) (now : Nat) : Narrows l (l.update now).2 := by
  refine ⟨rfl, List.Subset.refl _, patches_subset ?_ l.held_subset l.queued_subset⟩
  intro q hq
  obtain ⟨k, hq⟩ := ExpiringCache.mem_objects.mp hq
  exact l.objects_subset (ExpiringCache.mem_objects.mpr
    ⟨k, (l.cache.toList_evict l.outside now).subset hq⟩)

theorem narrows_clear (l : Landscape) : Narrows l l.clear where
  supply := rfl
  pieces := by
    show _ ++ [] ++ [] ++ [] ⊆ l.workshop.pieces
    rw [List.append_nil, List.append_nil, List.append_nil]
    exact List.subset_append_of_subset_left _ (List.subset_append_of_subset_left _
      (List.subset_append_left _ _))
  patches := patches_subset (List.nil_subset _) l.held_subset l.queued_subset

/-- only a request that misses brings anything new -/
theorem narrows_act {a : Action} (h : l.act a = .ok l') :
    Narrows l l' ∨ ∃ r now p l₁, l.miss r now = .ok (p, l₁) ∧ l'.workshop = l₁.workshop ∧
      l'.patches ⊆ p :: l.patches := by
  cases a with
  | get r now name =>
    obtain ⟨⟨p, l₁⟩, hget, h⟩ := Fault.bind_eq_ok.mp h
    rcases get_cases hget with ⟨hp, rfl⟩ | ⟨-, hmiss⟩
    · have known : p ∈ l.patches := l.objects_subset (ExpiringCache.mem_objects.mpr
        ⟨r.key, ExpiringCache.mem_toList_of_get? hp⟩)
      cases name with
      | none => cases h; exact .inl ⟨rfl, List.Subset.refl _, List.Subset.refl _⟩
      | some name =>
        cases h
        refine .inl ⟨rfl, List.Subset.refl _, ?_⟩
        exact List.Subset.trans (patches_hold _ name p)
          (List.cons_subset.mpr ⟨known, List.Subset.refl _⟩)
    · have new := patches_miss hmiss
      cases name with
      | none => cases h; exact .inr ⟨r, now, p, l₁, hmiss, rfl, new⟩
      | some name =>
        cases h
        refine .inr ⟨r, now, p, l₁, hmiss, rfl, ?_⟩
        exact List.Subset.trans (patches_hold _ name p)
          (List.cons_subset.mpr ⟨List.mem_cons_self, new⟩)
  | drop name => cases h; exact .inl (narrows_drop l name)
  | setNodeMask mask => cases h; exact .inl ⟨rfl, List.Subset.refl _, List.Subset.refl _⟩
  | update now => cases h; exact .inl (narrows_update l now)
  | clear => cases h; exact .inl (narrows_clear l)
  | enqueue name =>
    cases h
    unfold withHeld
    split
    · next p hp => exact .inl (narrows_enqueue (mem_patches_of_held hp))
    · exact .inl (narrows_bakery l l.bakery)
  | compileQueued limit => cases h; exact .inl (narrows_compileQueued l limit)
  | _ =>
    obtain ⟨bakery, rfl⟩ := act_atBakery h rfl
    exact .inl (narrows_bakery l bakery)

/-! ## one owner for each slot -/

/-- all pieces that are in use or can be given out again -/
def pieces (l : Landscape) : List Piece :=
  l.workshop.pieces ++ l.patches.flatMap Shared.patchPieces ++
    l.bakery.queue.waiting.flatMap Shared.compositePieces

theorem workshop_pieces_subset (l : Landscape) : l.workshop.pieces ⊆ l.pieces :=
  List.subset_append_of_subset_left _ (List.subset_append_left _ _)

theorem patchPieces_subset (hp : p ∈ l.patches) : p.patchPieces ⊆ l.pieces :=
  fun _ hx => List.mem_append_left _ (List.mem_append_right _ (List.mem_flatMap.mpr ⟨p, hp, hx⟩))

/-- a composite that waits now waited before or belongs to a patch -/
theorem waiting_act {a : Action} (h : l.act a = .ok l') {c : Shared Composite}
    (hc : c ∈ l'.bakery.queue.waiting) :
    c ∈ l.bakery.queue.waiting ∨ ∃ p ∈ l'.patches, p.val.composite = some c := by
  rcases bakery_act h with ⟨queue, hb, -, waiting⟩ | ⟨lasts, -, hb⟩
  · rw [hb] at hc
    exact waiting c hc
  · rw [hb] at hc
    exact .inl (List.mem_append_right _ ((List.drop_subset _ _) hc))

/-- an action makes new pieces only -/
theorem makes_act {a : Action} (hl : l.Kept) (h : l.act a = .ok l') :
    ∃ ys, NewPieces l.workshop.supply.next l'.workshop.supply.next ys ∧
      l'.pieces ⊆ l.pieces ++ ys := by
  have all : ∃ ys, NewPieces l.workshop.supply.next l'.workshop.supply.next ys ∧
      l'.workshop.pieces ⊆ l.pieces ++ ys ∧
      ∀ p ∈ l'.patches, p.patchPieces ⊆ l.pieces ++ ys := by
    rcases narrows_act h with narrows | ⟨r, now, p, l₁, hmiss, hw, patches⟩
    · refine ⟨[], narrows.supply ▸ .nil le_rfl, ?_, ?_⟩ <;> rw [List.append_nil]
      · exact List.Subset.trans narrows.pieces l.workshop_pieces_subset
      · exact fun p hp => patchPieces_subset (narrows.patches hp)
    · obtain ⟨xs, ⟨ys, new, made⟩, own⟩ := makes_miss hl hmiss
      have later : l.workshop.pieces ++ ys ⊆ l.pieces ++ ys :=
        List.append_subset.mpr ⟨List.subset_append_of_subset_left _ l.workshop_pieces_subset,
          List.subset_append_right _ _⟩
      obtain ⟨workshop, made⟩ := List.append_subset.mp (List.Subset.trans made later)
      rw [hw]
      refine ⟨ys, new, workshop, fun q hq => ?_⟩
      cases List.mem_cons.mp (patches hq) with
      | inl same =>
        rw [same]
        refine List.Subset.trans own (List.append_subset.mpr ⟨made, ?_⟩)
        exact List.subset_append_of_subset_left _ (List.subset_append_of_subset_left _
          (List.subset_append_right _ _))
      | inr old => exact List.subset_append_of_subset_left _ (patchPieces_subset old)
  obtain ⟨ys, new, workshop, patches⟩ := all
  refine ⟨ys, new, List.append_subset.mpr ⟨List.append_subset.mpr ⟨workshop, ?_⟩, ?_⟩⟩
  · intro x hx
    obtain ⟨p, hp, hx⟩ := List.mem_flatMap.mp hx
    exact patches p hp hx
  · intro x hx
    obtain ⟨c, hc, hx⟩ := List.mem_flatMap.mp hx
    rcases waiting_act h hc with waited | ⟨p, hp, hcomposite⟩
    · exact List.mem_append_left _ (List.mem_append_right _ (List.mem_flatMap.mpr ⟨c, waited, hx⟩))
    · refine patches p hp (List.mem_append_right _ (List.mem_flatMap.mpr ⟨c, ?_, hx⟩))
      exact Option.mem_toList.mpr hcomposite

/-- every slot of a piece was given to it alone -/
def Booked (l : Landscape) : Prop := NewPieces 0 l.workshop.supply.next l.pieces

theorem Booked.act {a : Action} (hb : l.Booked) (hl : l.Kept) (h : l.act a = .ok l') :
    l'.Booked := by
  obtain ⟨ys, new, pieces⟩ := makes_act hl h
  exact (NewPieces.append hb new).subset pieces

/-! ## the device of a landscape -/

theorem device_sound_move {b : Bakery} (h : b.device.Sound) (m : Bakery.Move) :
    (b.move m).device.Sound := by
  cases m with
  | upload us => exact h.uploadAll us
  | bake c =>
    show (b.bake c).2.device.Sound
    rw [Bakery.bake_eq]
    exact h.uploadAll _
  | release slots => exact h.releaseAll slots
  | unbake ids => exact h

theorem device_sound_act {a : Action} (hs : l.bakery.device.Sound) (h : l.act a = .ok l') :
    l'.bakery.device.Sound := by
  obtain ⟨queue, hb⟩ := moveAll_act h
  rw [hb]
  exact Bakery.moveAll_induction (P := fun b => b.device.Sound) hs fun m _ b hb => device_sound_move hb m

/-- the slots that an action releases -/
def releasedAt (l : Landscape) (a : Action) : List ObjectId :=
  (l.moves a).flatMap Bakery.Move.released

/-- the slots that a run releases -/
def releasedIn (l : Landscape) (acts : List Action) : List ObjectId :=
  (l.trace acts).flatMap fun s => s.1.releasedAt s.2

theorem resident_move {b : Bakery} {m : Bakery.Move} {slot : ObjectId}
    (resident : b.device.isResident slot = true) (spared : slot ∉ m.released) :
    (b.move m).device.isResident slot = true := by
  cases m with
  | upload us => exact (b.device.isResident_uploadAll us slot).mpr (.inl resident)
  | bake c =>
    show (b.bake c).2.device.isResident slot = true
    rw [Bakery.bake_eq]
    exact (b.device.isResident_uploadAll _ slot).mpr (.inl resident)
  | release slots => exact (b.device.isResident_releaseAll slots slot).mpr ⟨resident, spared⟩
  | unbake ids => exact resident

theorem resident_act {a : Action} {slot : ObjectId} (h : l.act a = .ok l')
    (resident : l.bakery.device.isResident slot = true) (spared : slot ∉ l.releasedAt a) :
    l'.bakery.device.isResident slot = true := by
  obtain ⟨queue, hb⟩ := moveAll_act h
  rw [hb]
  refine Bakery.moveAll_induction (P := fun b => b.device.isResident slot = true) resident ?_
  exact fun m hm b hb => resident_move hb fun hs => spared (List.mem_flatMap.mpr ⟨m, hm, hs⟩)

/-- what is resident stays so until it is released -/
theorem resident_run {acts : List Action} {slot : ObjectId} (h : l.run acts = .ok l')
    (resident : l.bakery.device.isResident slot = true) (spared : slot ∉ l.releasedIn acts) :
    l'.bakery.device.isResident slot = true :=
  (trace_induction (P := fun l => l.bakery.device.isResident slot = true) h resident
    fun s hs _ hact hr => resident_act hact hr fun hslot =>
      spared (List.mem_flatMap.mpr ⟨s, hs, hslot⟩)).1

/-- a patch is not compiled twice -/
theorem compile_again {acts : List Action} (h : (l.compile p).2.run acts = .ok l')
    (spared : ∀ u ∈ p.val.uploads, u.slot ∉ (l.compile p).2.releasedIn acts) :
    l'.compile p = (0, l') := by
  have resident : ∀ u ∈ p.val.uploads, l'.bakery.device.isResident u.slot = true := by
    intro u hu
    refine resident_run h ?_ (spared u hu)
    exact (l.bakery.device.isResident_uploadAll _ _).mpr (.inr (List.mem_map_of_mem hu))
  unfold compile Bakery.uploadAll
  rw [Device.uploadAll_of_resident _ resident]

/-! ## after any run -/

section
variable {source : Source} {scene : Scene} {bakes : BakeSettings} {queue : BakeQueue}
  {settings : Settings} {l₀ : Landscape} {acts : List Action}

/-- no patch is in use yet and nothing was baked -/
theorem unused_create (hl : create source scene queue settings = .ok l) :
    l.patches = [] ∧ l.bakery = .ofQueue queue := by
  unfold create at hl
  split at hl
  · cases hl
  · dsimp only at hl
    split at hl
    · cases hl
    · cases hl
      refine ⟨?_, rfl⟩
      cases scene.queuesUploads <;> rfl

theorem pieces_create (hq : BakeQueue.ofSettings bakes = .ok queue)
    (hl : create source scene queue settings = .ok l) :
    l.pieces = [] ∧ l.bakery.device = .initial := by
  obtain rfl := Bakery.new_ofSettings hq
  obtain ⟨patches, bakery⟩ := unused_create hl
  unfold pieces
  rw [patches, bakery, (new_create hl).workshop]
  exact ⟨rfl, rfl⟩

theorem device_sound_run (hq : BakeQueue.ofSettings bakes = .ok queue)
    (hl : create source scene queue settings = .ok l₀) (h : l₀.run acts = .ok l) :
    l.bakery.device.Sound := by
  refine run_induction (P := fun l => l.bakery.device.Sound) h ?_ fun _ _ _ _ hact hs =>
    device_sound_act hs hact
  rw [(pieces_create hq hl).2]
  exact Device.sound_initial

theorem booked_run (hq : BakeQueue.ofSettings bakes = .ok queue)
    (hl : create source scene queue settings = .ok l₀) (h : l₀.run acts = .ok l) : l.Booked := by
  refine (run_induction (P := fun l => l.Kept ∧ l.Booked) h ⟨kept_create hl, ?_⟩
    fun _ _ _ _ hact hk => ⟨hk.1.act hact, hk.2.act hk.1 hact⟩).2
  rw [Booked, (pieces_create hq hl).1]
  exact .nil (Nat.zero_le _)

/-- **Who has which handle after any run.**

Two pieces that are in use have two slots, and no handle is under two slots, so no two pieces have
one handle; every handle that a slot has was created and not deleted.  No handle was deleted twice
or without having been created, and what is live and what was deleted add up to what was created.
Uploads and compilations say how many handles they create, releases of all kinds how many they
delete.  A patch that was compiled is compiled again without creating a handle, until something
that it uploads is released. -/
theorem handles_of_run (hq : BakeQueue.ofSettings bakes = .ok queue)
    (hl : create source scene queue settings = .ok l₀) (h : l₀.run acts = .ok l) :
    (∀ x ∈ l.pieces, ∀ y ∈ l.pieces, x.slot = y.slot → x = y) ∧
    (∀ slot handle, l.bakery.device.handle? slot = some handle →
      l.bakery.device.Live handle ∧
      ∀ other, l.bakery.device.handle? other = some handle → other = slot) ∧
    l.bakery.device.deleted.Nodup ∧
    (∀ handle ∈ l.bakery.device.deleted, 1 ≤ handle ∧ handle ≤ l.bakery.device.created) ∧
    l.bakery.device.live + l.bakery.device.deleted.length = l.bakery.device.created ∧
    (∀ us, l.bakery.device.Creates (l.bakery.device.uploadAll us).2
      (l.bakery.device.uploadAll us).1) ∧
    (∀ slots, l.bakery.device.Deletes (l.bakery.device.releaseAll slots).2
      (l.bakery.device.releaseAll slots).1) ∧
    (∀ p, l.bakery.device.Creates (l.compile p).2.bakery.device (l.compile p).1) ∧
    (∀ p, l.bakery.device.Deletes (l.releasePatch p).2.bakery.device (l.releasePatch p).1) ∧
    (∀ c, l.bakery.device.Deletes (l.bakery.release c).2.device (l.bakery.release c).1) ∧
    l.bakery.device.Deletes l.releaseBuffers.2.bakery.device l.releaseBuffers.1 ∧
    l.bakery.device.Deletes l.releaseTileGrids.2.bakery.device l.releaseTileGrids.1 ∧
    l.bakery.device.Deletes l.release.2.bakery.device l.release.1 ∧
    ∀ p more l', (l.compile p).2.run more = .ok l' →
      (∀ u ∈ p.val.uploads, u.slot ∉ (l.compile p).2.releasedIn more) →
      l'.compile p = (0, l') := by
  have sound := device_sound_run hq hl h
  have creates := l.bakery.device.creates_uploadAll
  have deletes := l.bakery.device.deletes_releaseAll
  refine ⟨(booked_run hq hl h).single, ?_, ?_, ?_, ?_, creates, deletes, fun p => creates _,
    fun p => deletes _, fun c => deletes _, deletes _, deletes _, ?_, ?_⟩
  · intro slot handle hs
    exact ⟨sound.live hs, fun other ho => sound.slot_unique ho hs⟩
  · exact (List.nodup_append.mp sound.nodup).2.1
  · exact fun handle hd => sound.mem_iff.mp (.inr hd)
  · exact Nat.sub_add_cancel sound.deleted_le
  · rw [release_eq]
    exact deletes _
  · exact fun p more l' => compile_again

end

/-- a patch is copied, and what both share is uploaded, released, forgotten and uploaded again -/
def releasedInUse : List Action :=
  [.get (requestAtOrigin Scalar.two 0) 0 "patch", .get (requestAtOrigin Scalar.two 1) 0 "copy",
    .compile "patch", .renderFrame 1, .releasePatch "copy", .compile "copy", .clear,
    .releaseComposite "patch", .update 6000]

theorem handles_of_run_releasedInUse : ∃ queue l₀ l, BakeQueue.ofSettings ⟨2, 0⟩ = .ok queue ∧
    small = .ok l₀ ∧ l₀.run releasedInUse = .ok l ∧ l.bakery.device.created = 22 ∧
    l.bakery.device.deleted.length = 9 ∧ l.bakery.device.live + 9 = 22 ∧
    l.bakery.device.deleted.Nodup ∧ l.bakery.device.handle? 30 = some 22 ∧
    l.bakery.device.Live 22 ∧ ∀ p, (l.compile p).2.compile p = (0, (l.compile p).2) := by
  obtain ⟨l₀, l, hl, h, ht⟩ := run_small releasedInUse
    (fun l => decide (l.bakery.device.created = 22 ∧ l.bakery.device.deleted.length = 9 ∧
      l.bakery.device.handle? 30 = some 22)) (by decide +kernel)
  obtain ⟨created, deleted, resident⟩ := of_decide_eq_true ht
  have hq : BakeQueue.ofSettings ⟨2, 0⟩ = .ok ⟨[], [], 2, 0⟩ := rfl
  obtain ⟨-, handles, nodup, -, sum, -, -, -, -, -, -, -, -, again⟩ := handles_of_run hq hl h
  rw [created, deleted] at sum
  exact ⟨_, l₀, l, hq, hl, h, created, deleted, sum, nodup, resident, (handles 30 22 resident).1,
    fun p => again p [] _ rfl fun _ _ => List.not_mem_nil⟩

end Landscape

end TerrainPatches
