import TerrainPatches.Proofs.Landscape.Sizes
import TerrainPatches.Proofs.Workshop.Planned

/-!
# The cache does not show

What a request is answered with looks as planned, whether it is cached, copied or sampled, as long
as requests for one center and level agree about the size (`SizesAgree`).  So it looks like the
answer of a new landscape to that request alone (`bare_get_of_run`).

The invariant is `Faithful`: the workshop is sound, and every cached patch looks as planned for its
key and its own size.  A copy has the vertices and the passes of its sibling, which are the planned
ones for the copy too, since a plan uses the seams for the indices only.
-/

namespace TerrainPatches

namespace Plan

variable {site : Site} {settings : Settings} {k : PatchKey} {size : Float32} {p : Patch}

/-- the vertices and the passes that are planned for a patch are those it has -/
theorem parts_of_patch (h : patch site settings k size = .ok p.bare) :
    site.source.vertices k.level (site.place size k.center.number) (decide (settings.bakedFrom ≤ size))
      = .ok (Landscape.verticesOf p) ∧
    skin site settings k.center.number size = .ok (Landscape.Skin.mk p.passes p.composite).bare := by
  obtain ⟨v, hv, h⟩ := Fault.bind_eq_ok.mp h
  obtain ⟨n, -, h⟩ := Fault.bind_eq_ok.mp h
  by_cases hcount : n * n = v.positions.length
  · simp only [hcount, ne_eq, not_true, if_false] at h
    obtain ⟨s, hs, h⟩ := Fault.bind_eq_ok.mp h
    replace h := Except.ok.inj h
    have vertices : v = Landscape.verticesOf p := congrArg Landscape.verticesOf h
    have painted : s = (Landscape.Skin.mk p.passes p.composite).bare :=
      congrArg (fun p : Patch => Landscape.Skin.mk p.passes p.composite) h
    exact ⟨by rw [hv, vertices], by rw [hs, painted]⟩
  · simp only [hcount, ne_eq, not_false_eq_true, if_true] at h
    cases h

end Plan

namespace Landscape

variable {l l' : Landscape} {r : PatchRequest} {sibling : Option (Shared Patch)}

/-! ## building -/

def Shape.vertices (s : Shape) : Vertices :=
  ⟨s.positions.elements, s.normals.elements, s.colors.elements⟩

/-- the patch to be copied, if there is one, looks as planned for the sample and the size -/
def PlannedLike (l : Landscape) (r : PatchRequest) (sibling : Option (Shared Patch)) : Prop :=
  ∀ q ∈ sibling, ∃ k, k.sample = r.key.sample ∧
    Plan.patch l.site l.settings k r.size = .ok q.val.bare

theorem vertices_shape (planned : l.PlannedLike r sibling) :
    (l.shape r sibling (l.isBaked r.size)).map (fun a => a.1.vertices)
      = l.site.source.vertices r.key.level (l.site.place r.size r.key.center.number)
          (l.isBaked r.size) := by
  cases sibling with
  | none =>
    rw [← bind_pure (l.site.source.vertices _ _ _)]
    refine Fault.map_bind (Requests.map_askVertices _ _ _ _ _) ?_
    intro a ha
    rfl
  | some q =>
    obtain ⟨k, hk, hq⟩ := planned q rfl
    have same : r.key.level = k.level ∧ r.key.center = k.center :=
      ⟨congrArg SampleKey.level hk.symm, congrArg SampleKey.center hk.symm⟩
    rw [same.1, same.2]
    exact (Plan.parts_of_patch hq).1.symm

theorem bare_skin (sound : l.workshop.Sound l.site) (planned : l.PlannedLike r sibling) :
    (l.skin r sibling (l.isBaked r.size)).map (fun a => a.1.bare)
      = Plan.skin l.site l.settings r.key.center.number r.size := by
  cases sibling with
  | some q =>
    obtain ⟨k, hk, hq⟩ := planned q rfl
    rw [show r.key.center = k.center from congrArg SampleKey.center hk.symm]
    exact (Plan.parts_of_patch hq).2.symm
  | none =>
    show (if l.isBaked r.size then l.bakedSkin r else .ok (l.layeredSkin r)).map _ = _
    unfold Plan.skin isBaked
    split
    · have sound' := (l.workshop.steps_share l.site
        (Texture.target l.settings.textureSize)).sound sound
      refine Fault.map_bind (Workshop.bare_composite sound' _ _ _ _) ?_
      intro a ha
      refine congrArg (fun ps => Except.ok (Skin.mk ⟨0, ps⟩ _)) ?_
      exact Workshop.bare_bakedPasses _ _
    · refine congrArg (fun ps => Except.ok (Skin.mk ⟨0, ps⟩ none)) ?_
      exact Workshop.bare_passes sound _ false

/-- **A patch looks as planned when it is built.** -/
theorem bare_build (cells : l.cellVertices = l.site.cellVertices)
    (sound : l.workshop.Sound l.site) (planned : l.PlannedLike r sibling) :
    (l.build r sibling).map (fun a => a.1.bare) = Plan.patch l.site l.settings r.key r.size := by
  unfold build Plan.patch
  -- vertices, resolution, their agreement and the skin, in the order in which they can be at fault
  refine Fault.map_bind (vertices_shape planned) ?_
  intro a ha
  obtain ⟨shape, l₁⟩ := a
  obtain ⟨w, counts, bakery, rfl, steps⟩ := builds_shape ha
  have sound₁ := steps.sound sound
  refine Fault.map_bind (f := id) (by rw [← cells]; exact congrFun Except.map_id _) ?_
  intro n hn
  have indices := Workshop.bare_indexBuffer sound₁ n r.seams
  have sound₂ := (Workshop.Step.indexBuffer n r.seams : Workshop.Step l.site w _).sound sound₁
  have uvs := Workshop.bare_uvBuffer sound₂ n
  have sound₃ := (Workshop.Step.uvBuffer n : Workshop.Step l.site _ _).sound sound₂
  have count : (w.indexBuffer n r.seams).1.val.vertexCount = n * n := by
    rw [show (w.indexBuffer n r.seams).1.val = .build n r.seams from
      congrArg Shared.val indices]
    rfl
  by_cases hcount : n * n = shape.positions.length
  · have here := count.trans hcount
    have there : n * n = shape.vertices.positions.length := hcount
    simp only [id_eq, here, there, ne_eq, not_true, if_false]
    refine Fault.map_bind (bare_skin sound₃ planned) ?_
    intro a ha
    obtain ⟨skin, l₂⟩ := a
    obtain ⟨w', counts', bakery', rfl, -⟩ := builds_skin ha
    refine congrArg Except.ok ?_
    simp only [Patch.bare, indices, uvs]
    rfl
  · have here := count ▸ hcount
    have there : ¬ n * n = shape.vertices.positions.length := hcount
    simp only [id_eq, here, there, ne_eq, not_false_eq_true, if_true]
    rfl

/-! ## what the requests of a run have to agree about -/

/-- requests for one center and level are for one size -/
def SizesAgree (rs : List PatchRequest) : Prop :=
  ∀ r ∈ rs, ∀ r' ∈ rs, r.center = r'.center →
    r.seams.effectiveLevel r.level = r'.seams.effectiveLevel r'.level → r.size = r'.size

theorem SizesAgree.of_sample {rs : List PatchRequest} (h : SizesAgree rs) {r r' : PatchRequest}
    (hr : r ∈ rs) (hr' : r' ∈ rs) (hs : r.key.sample = r'.key.sample) : r.size = r'.size :=
  h r hr r' hr' (congrArg SampleKey.center hs) (congrArg SampleKey.level hs)

/-! ## the invariant -/

/-- what is remembered and what is cached looks as planned -/
structure Faithful (rs : List PatchRequest) (l : Landscape) : Prop where
  kept : l.Kept
  requested : l.Requested rs
  sound : l.workshop.Sound l.site
  planned : ∀ {k p}, (k, p) ∈ l.cache.toList →
    Plan.patch l.site l.settings k p.val.size = .ok p.val.bare

section
variable {rs : List PatchRequest}

/-- a cached patch of the sample of a request has the size asked for -/
theorem Faithful.size (hl : l.Faithful rs) (agree : SizesAgree rs) (hr : r ∈ rs) {k : PatchKey}
    {p : Shared Patch} (hp : (k, p) ∈ l.cache.toList) (hs : k.sample = r.key.sample) :
    p.val.size = r.size := by
  obtain ⟨r', hr', hk, hsize⟩ := hl.requested hp
  rw [hsize]
  exact agree.of_sample hr' hr (by rw [hk, hs])

theorem Faithful.plannedLike (hl : l.Faithful rs) (agree : SizesAgree rs) (hr : r ∈ rs) :
    l.PlannedLike r (l.sibling? r.key.sample) := by
  intro q hq
  obtain ⟨k, hk, hs⟩ := mem_of_sibling? hl.kept.ordered hq
  refine ⟨k, hs, ?_⟩
  rw [← hl.size agree hr hk hs]
  exact hl.planned hk

theorem Faithful.bare_miss (hl : l.Faithful rs) (agree : SizesAgree rs) (hr : r ∈ rs) (now : Nat) :
    (l.miss r now).map (fun a => a.1.val.bare) = Plan.patch l.site l.settings r.key r.size := by
  rw [← bind_pure (Plan.patch _ _ _ _)]
  refine Fault.map_bind (bare_build hl.kept.cells hl.sound (hl.plannedLike agree hr)) ?_
  intro a ha
  rfl

/-- **A faithful landscape answers as planned.** -/
theorem Faithful.bare_get (hl : l.Faithful rs) (agree : SizesAgree rs) (hr : r ∈ rs) (now : Nat) :
    (l.get r now).map (fun a => a.1.val.bare) = Plan.patch l.site l.settings r.key r.size := by
  unfold get
  cases h : l.cache.get? r.key with
  | none => exact hl.bare_miss agree hr now
  | some p =>
    have hp := ExpiringCache.mem_toList_of_get? h
    rw [← hl.size agree hr hp rfl]
    exact (hl.planned hp).symm

theorem sound_act (sound : l.workshop.Sound l.site) {a : Action} (h : l.act a = .ok l') :
    l'.workshop.Sound l'.site := by
  rw [(sameGround_act h).site]
  rcases act_cases h with h | ⟨r, now, name, p, l₁, -, -, hmiss, h⟩ | ⟨now, -, rfl⟩ | ⟨-, rfl⟩
  · obtain ⟨m, c, q, b, o, rfl⟩ := h
    exact sound
  · obtain ⟨patch, l₂, hbuild, -, rfl⟩ := miss_eq_ok hmiss
    obtain ⟨m, c, q, b, o, rfl⟩ := h
    have steps : Workshop.Steps l.site l.workshop (l₂.workshop.share patch).2 :=
      (builds_build hbuild).steps.trans (Workshop.steps_share _ l.site patch)
    exact steps.sound sound
  · exact sound
  · exact sound.clear

theorem Faithful.act (hl : l.Faithful rs) (agree : SizesAgree rs) {a : Action}
    (ha : requests [a] ⊆ rs) (h : l.act a = .ok l') : l'.Faithful rs := by
  refine ⟨hl.kept.act h, hl.requested.act ha h, sound_act hl.sound h, ?_⟩
  intro k p hp
  rw [(sameGround_act h).site, (sameGround_act h).settings]
  rcases cached_before_act h hp with hp | ⟨r, now, name, l₁, rfl, hmiss, rfl⟩
  · exact hl.planned hp
  -- a new entry was built while all that it was built from looked as planned
  · have look := hl.bare_miss agree (ha (List.mem_singleton_self r)) now
    rw [hmiss] at look
    rw [size_of_miss hmiss]
    exact look.symm

variable {source : Source} {scene : Scene} {queue : BakeQueue} {settings : Settings}

theorem faithful_create (hl : create source scene queue settings = .ok l) : l.Faithful rs := by
  have new := new_create hl
  refine ⟨kept_create hl, requested_of_nothing new.toList_cache, ?_, ?_⟩
  · rw [new.workshop]
    exact Workshop.sound_initial _
  · intro k p hp
    rw [new.toList_cache] at hp
    exact absurd hp List.not_mem_nil

theorem faithful_run {acts : List Action} (hl : create source scene queue settings = .ok l)
    (h : l.run acts = .ok l') (agree : SizesAgree rs) (hrs : requests acts ⊆ rs) :
    l'.Faithful rs :=
  run_induction h (faithful_create hl) fun _ ha _ _ hact hl =>
    hl.act agree (List.Subset.trans (requests_subset ha) hrs) hact

/-- **The cache does not show.**  After any run in which requests for one center and level are for
one size, the answer to a request is that of a new landscape but for identities, the node mask and
the mark of a copy; if one of them has a fault, the other has the same. -/
theorem bare_get_of_run {new : Landscape} {acts : List Action} (now now' : Nat)
    (hnew : create source scene queue settings = .ok new) (h : new.run acts = .ok l)
    (agree : SizesAgree (r :: requests acts)) :
    (l.get r now).map (fun a => a.1.val.bare) = (new.get r now').map (fun a => a.1.val.bare) := by
  have hr : r ∈ r :: requests acts := List.mem_cons_self
  have before := (faithful_create hnew).bare_get agree hr now'
  have after := (faithful_run hnew h agree (List.subset_cons_self r _)).bare_get agree hr now
  rw [(sameGround_run h).site, (sameGround_run h).settings] at after
  exact after.trans before.symm

/-- a copy of a copy looks like a patch of a new landscape -/
theorem bare_get_of_run_copiedBack : ∃ l l' l'' : Landscape, ∃ p, small = .ok l ∧
    l.run copiedBack = .ok l' ∧ l'.get (requestAtOrigin Scalar.two 0x11) 0 = .ok (p, l'') ∧
    p.val.copied = true ∧ SizesAgree (requestAtOrigin Scalar.two 0x11 :: requests copiedBack) ∧
    (l.get (requestAtOrigin Scalar.two 0x11) 0).map (fun a => a.1.val.bare) = .ok p.val.bare := by
  obtain ⟨l, l', l'', p, hl, h, hget, ht⟩ := get_small copiedBack
    (requestAtOrigin Scalar.two 0x11) (fun p => p.val.copied) (by decide +kernel)
  have agree : SizesAgree (requestAtOrigin Scalar.two 0x11 :: requests copiedBack) := by
    unfold SizesAgree
    decide +kernel
  have same := bare_get_of_run 0 0 hl h agree
  rw [hget] at same
  exact ⟨l, l', l'', p, hl, h, hget, ht, agree, same.symm⟩

end

end Landscape

end TerrainPatches
