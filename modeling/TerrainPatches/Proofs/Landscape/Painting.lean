import TerrainPatches.Proofs.Landscape.Transparency
import TerrainPatches.Proofs.Workshop.Pieces

/-!
# How patches are painted

A sampled patch is painted by its size: from `Settings.bakedFrom` on by one pass that draws its
composite, below by one pass for each layer, and then it samples no render target unless the scene
itself has one under a path.  A copy is painted like the patch it is copied from, which may have
another size, while it has the sets of texture coordinates that its own size asks for
(`single_set_of_layers`).

`Painted` is the invariant: the skin of every cached patch is planned for some request for its
sample.  `painted_of_get` is what follows for the answers.
-/

namespace TerrainPatches

/-! ## what passes sample -/

theorem Pass.textures_bare (p : Pass) : p.bare.textures = p.textures.map Shared.bare := by
  unfold textures bare
  cases p.normal <;> cases p.blendMap <;> rfl

/-- the textures of layers come from the scene, and blend maps from the images of the source -/
theorem Plan.texture_of_passes {site : Site} {place : Place} {baked : Bool} {pass : Pass}
    {t : Shared Texture} (hpass : pass ∈ passes site place baked) (ht : t ∈ pass.textures) :
    (∃ path, t.val = site.scene.texture path) ∨ ∃ image, t.val = .blendMap image := by
  have piece : Piece.texture t ∈ (passes site place baked).flatMap Pass.pieces :=
    List.mem_flatMap.mpr ⟨pass, hpass, List.mem_map_of_mem ht⟩
  rcases List.mem_append.mp (Workshop.pieces_ofLayers _ _ _ _ _ piece) with hlayer | hmap
  · obtain ⟨l, hl, ht⟩ := List.mem_flatMap.mp hlayer
    obtain ⟨spec, -, rfl⟩ := List.mem_map.mp hl
    refine .inl ?_
    cases List.mem_cons.mp ht with
    | inl diffuse =>
      cases diffuse
      exact ⟨spec.diffuse, rfl⟩
    | inr normal =>
      obtain ⟨t', ht', ⟨⟩⟩ := List.mem_map.mp normal
      rw [Option.mem_toList, layer] at ht'
      cases baked with
      | true => cases ht'
      | false =>
        obtain ⟨path, -, rfl⟩ := Option.map_eq_some_iff.mp ht'
        exact ⟨path, rfl⟩
  · obtain ⟨t', ht', ⟨⟩⟩ := List.mem_map.mp hmap
    obtain ⟨image, -, rfl⟩ := List.mem_map.mp ht'
    exact .inr ⟨image, rfl⟩

namespace Landscape

variable {l l' : Landscape} {r : PatchRequest}

/-! ## skins -/

/-- one pass, which draws the texture and nothing else -/
def Draws (passes : List Pass) (t : Shared Texture) : Prop :=
  ∃ pass, passes = [pass] ∧ pass.diffuse = t ∧ pass.normal = none ∧ pass.blendMap = none

theorem draws_bakedPasses (scene : Scene) (t : Shared Texture) :
    Draws (Workshop.bakedPasses scene t) t := by
  refine ⟨_, rfl, rfl, ?_, rfl⟩
  show (if scene.needsShaders then none else none) = none
  exact ite_self none

/-- the skin is planned for a patch of this size, and draws its composite if it has one -/
structure SkinFor (l : Landscape) (center : Point2 Float32) (size : Float32) (s : Skin) :
    Prop where
  planned : Plan.skin l.site l.settings center size = .ok s.bare
  draws : ∀ c ∈ s.composite, Draws s.passes.val c.val.target

theorem SkinFor.isSome_iff {center : Point2 Float32} {size : Float32} {s : Skin}
    (h : l.SkinFor center size s) : s.composite.isSome ↔ l.settings.bakedFrom ≤ size := by
  have same : s.composite.isSome = s.bare.composite.isSome := Option.isSome_map.symm
  have planned := h.planned
  unfold Plan.skin at planned
  rw [same]
  split at planned
  · next baked =>
    obtain ⟨c, -, hs⟩ := Fault.bind_eq_ok.mp planned
    rw [← Except.ok.inj hs]
    exact iff_of_true rfl (of_decide_eq_true baked)
  · next layered =>
    rw [← Except.ok.inj planned]
    exact iff_of_false (by simp) fun baked => layered (decide_eq_true baked)

/-- without a composite, only the scene can bring a render target into a skin -/
theorem SkinFor.texture_of_target {center : Point2 Float32} {size : Float32} {s : Skin}
    (h : l.SkinFor center size s) (none : s.composite = none) {pass : Pass} {t : Shared Texture}
    (hpass : pass ∈ s.passes.val) (ht : t ∈ pass.textures) (target : t.val.isTarget = true) :
    ∃ path, t.val = l.site.scene.texture path := by
  have layered : ¬ l.settings.bakedFrom ≤ size := by
    rw [← h.isSome_iff, none]
    simp
  have planned := h.planned
  rw [Plan.skin, if_neg (by simpa using layered)] at planned
  have passes : s.passes.val.map Pass.bare = Plan.passes l.site (l.site.place size center) false :=
    congrArg (fun s : Skin => s.passes.val) (Except.ok.inj planned).symm
  have hbare : pass.bare ∈ Plan.passes l.site (l.site.place size center) false :=
    passes ▸ List.mem_map_of_mem hpass
  have htb : t.bare ∈ pass.bare.textures := by
    rw [Pass.textures_bare]
    exact List.mem_map_of_mem ht
  rcases Plan.texture_of_passes hbare htb with scene | ⟨image, himage⟩
  · exact scene
  · rw [show t.val = .blendMap image from himage, Texture.isTarget_blendMap] at target
    cases target

theorem SkinFor.sameGround {center : Point2 Float32} {size : Float32} {s : Skin}
    (h : l.SkinFor center size s) (same : SameGround l l') : l'.SkinFor center size s := by
  refine ⟨?_, h.draws⟩
  rw [same.site, same.settings]
  exact h.planned

/-! ## sampled patches -/

theorem draws_of_skin {baked : Bool} {s : Skin} (h : l.skin r none baked = .ok (s, l')) :
    ∀ c ∈ s.composite, Draws s.passes.val c.val.target := by
  intro c hc
  cases baked with
  | false =>
    cases h
    cases hc
  | true =>
    obtain ⟨target, w₁, c', w₂, -, hc', hcomposite, hpasses, -⟩ := bakedSkin_eq_ok h
    rw [Option.mem_def, hcomposite] at hc
    cases hc
    have aim : c'.target = target := by
      obtain ⟨leaves, -, hc'⟩ := Fault.bind_eq_ok.mp hc'
      obtain ⟨⟨tiles, w₃⟩, -, hc'⟩ := Fault.bind_eq_ok.mp hc'
      cases hc'
      rfl
    show Draws s.passes.val c'.target
    rw [aim, hpasses]
    exact draws_bakedPasses _ target

/-- a sampled patch has the skin of its size -/
theorem skinFor_of_sampled (cells : l.cellVertices = l.site.cellVertices)
    (sound : l.workshop.Sound l.site) {p : Patch} (h : l.build r none = .ok (p, l')) :
    l.SkinFor r.center.number r.size ⟨p.passes, p.composite⟩ := by
  have alone : l.PlannedLike r none := fun q hq => by cases hq
  have look := bare_build cells sound alone
  rw [h] at look
  refine ⟨(Plan.parts_of_patch look.symm).2, ?_⟩
  obtain ⟨shape, l₁, n, skin, -, -, -, hskin, rfl⟩ := build_eq_ok h
  exact draws_of_skin hskin

/-! ## cached patches -/

/-- a patch has the sets of texture coordinates of its own size, and the skin that is planned for a
request; unless it is a copy, the request had its size -/
structure PaintedFor (l : Landscape) (r : PatchRequest) (p : Patch) : Prop where
  sets : p.uvSets = if l.settings.bakedFrom ≤ p.size then 1 else 2
  skin : l.SkinFor r.center.number r.size ⟨p.passes, p.composite⟩
  size : p.copied = false → p.size = r.size

/-- every cached patch is painted for a request for its sample -/
structure Painted (rs : List PatchRequest) (l : Landscape) : Prop where
  kept : l.Kept
  sound : l.workshop.Sound l.site
  painted : ∀ {k p}, (k, p) ∈ l.cache.toList →
    ∃ r ∈ rs, r.key.sample = k.sample ∧ l.PaintedFor r p.val

theorem PaintedFor.sameGround {p : Patch} (h : l.PaintedFor r p) (same : SameGround l l') :
    l'.PaintedFor r p := by
  refine ⟨?_, h.skin.sameGround same, h.size⟩
  rw [same.settings]
  exact h.sets

section
variable {rs : List PatchRequest}

theorem uvSets_of_build {sibling : Option (Shared Patch)} {p : Patch}
    (h : l.build r sibling = .ok (p, l')) :
    p.uvSets = (if l.settings.bakedFrom ≤ p.size then 1 else 2) ∧ p.copied = sibling.isSome := by
  have size := (build_key h).2
  obtain ⟨shape, l₁, n, skin, -, -, -, -, rfl⟩ := build_eq_ok h
  simp only [isBaked, decide_eq_true_eq, and_self]

theorem Painted.miss (hl : l.Painted rs) (hr : r ∈ rs) {now : Nat} {p : Shared Patch}
    (h : l.miss r now = .ok (p, l')) :
    ∃ r' ∈ rs, r'.key.sample = r.key.sample ∧ l.PaintedFor r' p.val := by
  obtain ⟨patch, l₁, hbuild, rfl, -⟩ := miss_eq_ok h
  obtain ⟨sets, copied⟩ := uvSets_of_build hbuild
  cases hq : l.sibling? r.key.sample with
  | none =>
    rw [hq] at hbuild
    have skin := skinFor_of_sampled hl.kept.cells hl.sound hbuild
    exact ⟨r, hr, rfl, sets, skin, fun _ => (build_key hbuild).2⟩
  | some q =>
    rw [hq] at hbuild copied
    obtain ⟨k, hk, hs⟩ := mem_of_sibling? hl.kept.ordered hq
    obtain ⟨r', hr', hs', painted⟩ := hl.painted hk
    obtain ⟨passes, composite⟩ := build_painted hbuild
    refine ⟨r', hr', hs'.trans hs, sets, ?_, fun sampled => ?_⟩
    · show l.SkinFor _ _ ⟨patch.passes, patch.composite⟩
      rw [passes, composite]
      exact painted.skin
    · rw [show patch.copied = true from copied] at sampled
      cases sampled

theorem Painted.act (hl : l.Painted rs) {a : Action} (ha : requests [a] ⊆ rs)
    (h : l.act a = .ok l') : l'.Painted rs := by
  refine ⟨hl.kept.act h, sound_act hl.sound h, ?_⟩
  intro k p hp
  have same := sameGround_act h
  rcases cached_before_act h hp with hp | ⟨r, now, name, l₁, rfl, hmiss, rfl⟩
  · obtain ⟨r, hr, hs, painted⟩ := hl.painted hp
    exact ⟨r, hr, hs, painted.sameGround same⟩
  · obtain ⟨r', hr', hs, painted⟩ := hl.miss (ha (List.mem_singleton_self r)) hmiss
    exact ⟨r', hr', hs, painted.sameGround same⟩

variable {source : Source} {scene : Scene} {queue : BakeQueue} {settings : Settings}
  {acts : List Action}

theorem painted_create (hl : create source scene queue settings = .ok l) : l.Painted rs := by
  have new := new_create hl
  refine ⟨kept_create hl, ?_, ?_⟩
  · rw [new.workshop]
    exact Workshop.sound_initial _
  · intro k p hp
    rw [new.toList_cache] at hp
    exact absurd hp List.not_mem_nil

theorem painted_run (hl : create source scene queue settings = .ok l) (h : l.run acts = .ok l')
    (hrs : requests acts ⊆ rs) : l'.Painted rs :=
  run_induction h (painted_create hl) fun _ ha _ _ hact hl =>
    hl.act (List.Subset.trans (requests_subset ha) hrs) hact

variable {l₀ : Landscape} {now : Nat} {p : Shared Patch}

/-- the answer has the size of a request for its key -/
theorem requested_of_get (hl : create source scene queue settings = .ok l₀)
    (h : l₀.run acts = .ok l) (hget : l.get r now = .ok (p, l')) :
    ∃ r' ∈ r :: requests acts, r'.key = r.key ∧ p.val.size = r'.size := by
  obtain ⟨-, built, cached, -⟩ := size_of_get hl h hget
  cases hq : l.cache.get? r.key with
  | none => exact ⟨r, List.mem_cons_self, rfl, built hq⟩
  | some q =>
    obtain ⟨-, r', hr', hk, hsize⟩ := cached q hq
    exact ⟨r', List.mem_cons_of_mem r hr', hk, hsize⟩

theorem act_get (h : l.get r now = .ok (p, l')) : l.act (.get r now none) = .ok l' := by
  show (l.get r now >>= _) = _
  rw [h]
  rfl

/-- the answer is painted for a request for its sample -/
theorem paintedFor_of_get (hl : create source scene queue settings = .ok l₀)
    (h : l₀.run acts = .ok l) (hget : l.get r now = .ok (p, l')) :
    ∃ r' ∈ r :: requests acts, r'.key.sample = r.key.sample ∧ l'.PaintedFor r' p.val := by
  have last : requests [.get r now none] ⊆ r :: requests acts :=
    List.cons_subset.mpr ⟨List.mem_cons_self, List.nil_subset _⟩
  have after := (painted_run hl h (List.subset_cons_self r _)).act last (act_get hget)
  exact after.painted ((kept_run hl h).get hget).2

/-- **How the answer to a request is painted.**  A patch has one set of texture coordinates if it is
at least `bakedFrom` cells large, and else two.  If it has a composite, it has one pass, which draws
the target of that composite and nothing else.  If it has none, the only render targets that its
passes sample are those that the scene has under a path.  Whether it has one is decided by the size
of a request for its center and level, the one that was sampled; for a patch that is not a copy that
is its own size.  So it has a composite exactly if it is large enough for one, and exactly if it has
one set of texture coordinates, whenever it is not a copy and whenever all requests for its center
and level were large enough or none was. -/
theorem painted_of_get (hl : create source scene queue settings = .ok l₀)
    (h : l₀.run acts = .ok l) (hget : l.get r now = .ok (p, l')) :
    (p.val.uvSets = if settings.bakedFrom ≤ p.val.size then 1 else 2) ∧
    (∀ c, p.val.composite = some c → ∃ pass, p.val.passes.val = [pass] ∧
      pass.diffuse = c.val.target ∧ pass.normal = none ∧ pass.blendMap = none) ∧
    (p.val.composite = none → ∀ pass ∈ p.val.passes.val, ∀ t ∈ pass.textures,
      t.val.isTarget = true → ∃ path, t.val = scene.texture path) ∧
    (∃ r' ∈ r :: requests acts, r'.key.sample = r.key.sample ∧
      (p.val.composite.isSome ↔ settings.bakedFrom ≤ r'.size) ∧
      (p.val.copied = false → p.val.size = r'.size)) ∧
    (p.val.copied = false ∨ (∀ r' ∈ requests acts, r'.key.sample = r.key.sample →
        (settings.bakedFrom ≤ r'.size ↔ settings.bakedFrom ≤ r.size)) →
      (p.val.composite.isSome ↔ settings.bakedFrom ≤ p.val.size) ∧
      (p.val.composite.isSome ↔ p.val.uvSets = 1)) := by
  have ground := (sameGround_run h).trans (sameGround_get hget)
  have settled : l'.settings = settings := ground.settings.trans (new_create hl).settings
  have scenery : l'.site.scene = scene := by rw [ground.site, (new_create hl).site]
  obtain ⟨r', hr', hs, painted⟩ := paintedFor_of_get hl h hget
  have sets := painted.sets
  have baked := painted.skin.isSome_iff
  rw [settled] at sets baked
  refine ⟨sets, painted.skin.draws, ?_, ⟨r', hr', hs, baked, painted.size⟩, ?_⟩
  · intro none pass hpass t ht target
    rw [← scenery]
    exact painted.skin.texture_of_target none hpass ht target
  · intro condition
    have own : p.val.composite.isSome ↔ settings.bakedFrom ≤ p.val.size := by
      rcases condition with sampled | agree
      · rw [painted.size sampled]
        exact baked
      · have side := List.forall_mem_cons.mpr ⟨fun _ => Iff.rfl, agree⟩
        obtain ⟨r₁, hr₁, hk, hsize⟩ := requested_of_get hl h hget
        rw [hsize]
        exact baked.trans ((side r' hr' hs).trans (side r₁ hr₁ (congrArg _ hk)).symm)
    refine ⟨own, own.trans ?_⟩
    rw [sets]
    split
    · next large => exact iff_of_true large rfl
    · next small => exact iff_of_false small (by decide)

end

/-- a landscape of patches with two layers, and with composites from one and a half cells on -/
def twoLayered : Except SetupError Landscape :=
  create ({ FlatTerrain.standard with cellVertices := 2 }).source
    ⟨false, true, Scene.blankTexture, false, true⟩ ⟨[], [], 2, 0⟩
    { Settings.standard with textureSize := 4, bakedFrom := Scalar.ofNat 3 / Scalar.two }

/-- **Layers with a single set of texture coordinates.**  A patch of one cell is asked for, and then
one of one and a half cells with other seams.  The second is large enough to be baked but is painted
in layers like the first, with a blend map for which it has no texture coordinates. -/
theorem single_set_of_layers : ∃ l l' l'' : Landscape, ∃ p, twoLayered = .ok l ∧
    l.run [.get (requestAtOrigin Scalar.one 0) 0 none] = .ok l' ∧
    l'.get (requestAtOrigin (Scalar.ofNat 3 / Scalar.two) 1) 0 = .ok (p, l'') ∧
    l'.settings.bakedFrom ≤ p.val.size ∧ p.val.composite = none ∧ p.val.uvSets = 1 ∧
    ∃ pass ∈ p.val.passes.val, pass.blendMap.isSome = true := by
  obtain ⟨l, hl, ht⟩ : ∃ l, twoLayered = .ok l ∧
      ((l.run [.get (requestAtOrigin Scalar.one 0) 0 none]).toOption.any fun l' =>
        (l'.get (requestAtOrigin (Scalar.ofNat 3 / Scalar.two) 1) 0).toOption.any fun a =>
          decide (l'.settings.bakedFrom ≤ a.1.val.size ∧ a.1.val.composite.isNone ∧
            a.1.val.uvSets = 1 ∧
            ∃ pass ∈ a.1.val.passes.val, pass.blendMap.isSome = true)) = true :=
    exists_ok_of_any (by decide +kernel)
  obtain ⟨l', h, ht⟩ := exists_ok_of_any ht
  obtain ⟨⟨p, l''⟩, hget, ht⟩ := exists_ok_of_any ht
  obtain ⟨large, none, single, layered⟩ := of_decide_eq_true ht
  exact ⟨l, l', l'', p, hl, h, hget, large, Option.isNone_iff_eq_none.mp none, single, layered⟩

/-- a copy of a patch with a composite is drawn by the pass that it shares -/
theorem painted_of_get_copiedBack : ∃ l l' l'' : Landscape, ∃ p c, small = .ok l ∧
    l.run copiedBack = .ok l' ∧ l'.get (requestAtOrigin Scalar.two 0x11) 0 = .ok (p, l'') ∧
    p.val.copied = true ∧ p.val.composite = some c ∧ p.val.uvSets = 1 ∧
    ∃ pass, p.val.passes.val = [pass] ∧ pass.diffuse = c.val.target ∧ pass.blendMap = none := by
  obtain ⟨l, l', l'', p, hl, h, hget, ht⟩ := get_small copiedBack
    (requestAtOrigin Scalar.two 0x11) (fun p => p.val.copied && p.val.composite.isSome)
    (by decide +kernel)
  obtain ⟨copied, some⟩ := (Bool.and_eq_true _ _).mp ht
  obtain ⟨c, hc⟩ := Option.isSome_iff_exists.mp some
  obtain ⟨-, draws, -, -, same⟩ := painted_of_get hl h hget
  have agree : ∀ r' ∈ requests copiedBack, r'.size = Scalar.two := by decide +kernel
  obtain ⟨-, single⟩ := same (.inr fun r' hr' _ => by rw [agree r' hr']; exact Iff.rfl)
  obtain ⟨pass, hpass, diffuse, -, blendMap⟩ := draws c hc
  exact ⟨l, l', l'', p, c, hl, h, hget, copied, hc, single.mp some, pass, hpass, diffuse, blendMap⟩

end Landscape

end TerrainPatches
