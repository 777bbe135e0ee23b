import TerrainPatches.Landscape
import TerrainPatches.Proofs.Landscape.Siblings
import TerrainPatches.Proofs.Workshop.Steps

/-!
# How a patch is built

A build takes the landscape through steps of its workshop and counts; it changes nothing that is
cached, queued for its upload or held (`Builds`).  What it shares with other patches is what the
workshop gives out for it: the buffers of its resolution and the remembered grids of its tiles
(`Patch.Supplied`, `build_supplied`).  A copy takes its passes and its composite from the patch it
is copied from (`build_painted`).
-/

namespace TerrainPatches

/-- the shared parts of a patch are those that the workshop gives out -/
structure Patch.Supplied (cellVertices : Nat) (w : Workshop) (p : Patch) : Prop where
  buffers : ∃ n, resolution cellVertices p.size p.key.level = .ok n ∧
    w.buffers.findIndex? n p.key.seams.edgeBits = some p.indices ∧
    w.buffers.findUv? n = some p.uvs
  tiles : ∀ c ∈ p.composite, ∀ t ∈ c.val.tiles, t.Remembered w

theorem Patch.Supplied.mono {cellVertices : Nat} {w w' : Workshop} {p : Patch}
    (h : p.Supplied cellVertices w) (hw : w.Grows w') : p.Supplied cellVertices w' := by
  obtain ⟨n, hn, hindex, huv⟩ := h.buffers
  exact ⟨⟨n, hn, hw.index hindex, hw.uv huv⟩, fun c hc t ht => (h.tiles c hc t ht).mono hw⟩

namespace Landscape

variable {l l' l'' : Landscape} {r : PatchRequest} {sibling : Option (Shared Patch)} {baked : Bool}

/-- `l'` is `l` after some work on a patch -/
def Builds (l l' : Landscape) : Prop :=
  ∃ workshop counts bakery, l' = { l with workshop, counts, bakery } ∧
    Workshop.Steps l.site l.workshop workshop

theorem Builds.trans (h : Builds l l') (h' : Builds l' l'') : Builds l l'' := by
  obtain ⟨w, c, b, rfl, steps⟩ := h
  obtain ⟨w', c', b', rfl, steps'⟩ := h'
  exact ⟨w', c', b', rfl, steps.trans steps'⟩

theorem Builds.steps (h : Builds l l') : Workshop.Steps l.site l.workshop l'.workshop := by
  obtain ⟨w, c, b, rfl, steps⟩ := h
  exact steps

/-! ## vertices -/

theorem steps_shapeOf (w : Workshop) (site : Site) (v : Vertices) :
    Workshop.Steps site w (shapeOf w v).2 :=
  ((w.steps_vertexArray site _).trans (Workshop.steps_vertexArray _ site _)).trans
    (Workshop.steps_vertexArray _ site _)

theorem builds_shape {shape : Shape} (h : l.shape r sibling baked = .ok (shape, l')) :
    Builds l l' := by
  cases sibling with
  | some p =>
    cases h
    exact ⟨_, _, _, rfl, steps_shapeOf l.workshop l.site _⟩
  | none =>
    obtain ⟨⟨v, requests⟩, hv, h⟩ := Fault.bind_eq_ok.mp h
    cases h
    exact ⟨_, _, _, rfl, .trans (.single (.ask requests)) (steps_shapeOf _ l.site v)⟩

/-! ## passes -/

/-- what a composite and the pass that draws it are put together from -/
theorem bakedSkin_eq_ok {skin : Skin} (h : l.bakedSkin r = .ok (skin, l')) :
    ∃ target w₁ c w₂, (target, w₁) = l.workshop.share (Texture.target l.settings.textureSize) ∧
      w₁.composite l.site l.settings.maxTileSize r.size r.center.number target = .ok (c, w₂) ∧
      skin.composite = some (w₂.share c).1 ∧
      skin.passes = ((w₂.share c).2.share (Workshop.bakedPasses l.site.scene target)).1 ∧
      l' = { l with
        workshop := ((w₂.share c).2.share (Workshop.bakedPasses l.site.scene target)).2
        counts := { l.counts with composites := l.counts.composites + 1 }
        bakery := l.bakery.offer (w₂.share c).1 } := by
  obtain ⟨⟨c, w₂⟩, hc, h⟩ := Fault.bind_eq_ok.mp h
  cases h
  exact ⟨_, _, c, w₂, rfl, hc, rfl, rfl, rfl⟩

theorem builds_bakedSkin {skin : Skin} (h : l.bakedSkin r = .ok (skin, l')) :
    Builds l l' ∧ ∀ c ∈ skin.composite, ∀ t ∈ c.val.tiles, t.Remembered l'.workshop := by
  obtain ⟨target, w₁, c, w₂, htarget, hc, hcomposite, -, rfl⟩ := bakedSkin_eq_ok h
  obtain ⟨steps, -, remembered⟩ := Workshop.steps_composite hc
  have first : Workshop.Steps l.site l.workshop w₁ := by
    rw [show w₁ = (l.workshop.share _).2 from congrArg Prod.snd htarget]
    exact Workshop.steps_share _ _ _
  have last : Workshop.Steps l.site w₂ ((w₂.share c).2.share _).2 :=
    (w₂.steps_share l.site c).trans (Workshop.steps_share _ l.site
      (Workshop.bakedPasses l.site.scene target))
  refine ⟨⟨_, _, _, rfl, (first.trans steps).trans last⟩, ?_⟩
  intro c' hc' t ht
  rw [hcomposite] at hc'
  cases hc'
  exact (remembered t ht).mono last.grows

theorem builds_layeredSkin (l : Landscape) (r : PatchRequest) : Builds l (l.layeredSkin r).2 :=
  ⟨_, _, _, rfl, (Workshop.steps_passes l.workshop l.site _ false).trans
    (Workshop.steps_share _ l.site _)⟩

theorem builds_skin {skin : Skin} (h : l.skin r sibling baked = .ok (skin, l')) :
    Builds l l' := by
  cases sibling with
  | some p =>
    cases h
    exact ⟨_, _, _, rfl, .refl⟩
  | none =>
    cases baked with
    | true => exact (builds_bakedSkin h).1
    | false =>
      cases h
      exact builds_layeredSkin l r

/-- the tiles of a new composite are remembered -/
theorem remembered_skin {skin : Skin} (h : l.skin r none baked = .ok (skin, l')) :
    ∀ c ∈ skin.composite, ∀ t ∈ c.val.tiles, t.Remembered l'.workshop := by
  cases baked with
  | true => exact (builds_bakedSkin h).2
  | false =>
    cases h
    intro c hc
    cases hc

/-! ## the whole patch -/

/-- the buffers of a patch with `n` vertices along an edge -/
def withBuffers (l : Landscape) (n : Nat) (seams : Seams) : Landscape :=
  { l with workshop := ((l.workshop.indexBuffer n seams).2.uvBuffer n).2 }

/-- what a patch is put together from -/
theorem build_eq_ok {p : Patch} (h : l.build r sibling = .ok (p, l')) :
    ∃ shape l₁ n skin, l.shape r sibling (l.isBaked r.size) = .ok (shape, l₁) ∧
      resolution l₁.cellVertices r.size r.key.level = .ok n ∧
      (l₁.workshop.indexBuffer n r.seams).1.val.vertexCount = shape.positions.length ∧
      (l₁.withBuffers n r.seams).skin r sibling (l.isBaked r.size) = .ok (skin, l') ∧
      p = { key := r.key
            size := r.size
            positions := shape.positions
            normals := shape.normals
            colors := shape.colors
            indices := (l₁.workshop.indexBuffer n r.seams).1
            uvs := ((l₁.workshop.indexBuffer n r.seams).2.uvBuffer n).1
            uvSets := if l.isBaked r.size then 1 else 2
            passes := skin.passes
            composite := skin.composite
            ownLights := decide (r.size ≤ Scalar.one)
            waterMargin :=
              r.size * l'.site.source.cellWorldSize l'.settings.world / Scalar.ofNat n
            nodeMask := l'.nodeMask
            copied := sibling.isSome } := by
  obtain ⟨⟨shape, l₁⟩, hshape, h⟩ := Fault.bind_eq_ok.mp h
  obtain ⟨n, hn, h⟩ := Fault.bind_eq_ok.mp h
  by_cases hcount : (l₁.workshop.indexBuffer n r.seams).1.val.vertexCount = shape.positions.length
  · simp only [hcount, ne_eq, not_true, if_false] at h
    obtain ⟨⟨skin, l₂⟩, hskin, h⟩ := Fault.bind_eq_ok.mp h
    cases h
    exact ⟨shape, l₁, n, skin, hshape, hn, hcount, hskin, rfl⟩
  · simp only [hcount, ne_eq, not_false_eq_true, if_true] at h
    cases h

theorem builds_withBuffers (l : Landscape) (n : Nat) (seams : Seams) :
    Builds l (l.withBuffers n seams) :=
  ⟨_, _, _, rfl, .tail (.single (.indexBuffer n seams)) (.uvBuffer n)⟩

theorem builds_build {p : Patch} (h : l.build r sibling = .ok (p, l')) : Builds l l' := by
  obtain ⟨shape, l₁, n, skin, hshape, -, -, hskin, -⟩ := build_eq_ok h
  exact ((builds_shape hshape).trans (builds_withBuffers l₁ n r.seams)).trans (builds_skin hskin)

theorem build_key {p : Patch} (h : l.build r sibling = .ok (p, l')) :
    p.key = r.key ∧ p.size = r.size := by
  obtain ⟨shape, l₁, n, skin, -, -, -, -, rfl⟩ := build_eq_ok h
  exact ⟨rfl, rfl⟩

/-- a copy is painted like the patch it is copied from -/
theorem build_painted {p : Patch} {q : Shared Patch} (h : l.build r (some q) = .ok (p, l')) :
    p.passes = q.val.passes ∧ p.composite = q.val.composite := by
  obtain ⟨shape, l₁, n, skin, -, -, -, hskin, rfl⟩ := build_eq_ok h
  cases hskin
  exact ⟨rfl, rfl⟩

/-- **A new patch is supplied by the workshop, if the patch it is copied from was.** -/
theorem build_supplied {p : Patch} (h : l.build r sibling = .ok (p, l'))
    (hs : ∀ q ∈ sibling, q.val.Supplied l.cellVertices l.workshop) :
    p.Supplied l.cellVertices l'.workshop := by
  have hbuild := builds_build h
  obtain ⟨shape, l₁, n, skin, hshape, hn, -, hskin, rfl⟩ := build_eq_ok h
  have hcells : l₁.cellVertices = l.cellVertices := by
    obtain ⟨w, c, b, rfl, -⟩ := builds_shape hshape
    rfl
  have hgrows := (builds_skin hskin).steps.grows
  rw [hcells] at hn
  refine ⟨⟨n, hn, hgrows.index ?_, hgrows.uv (Workshop.findUv?_uvBuffer _ n)⟩, ?_⟩
  · exact (Workshop.grows_uvBuffer _ n).index (Workshop.findIndex?_indexBuffer _ n r.seams)
  · cases sibling with
    | some q =>
      cases hskin
      exact fun c hc t ht => ((hs q rfl).tiles c hc t ht).mono hbuild.steps.grows
    | none => exact remembered_skin hskin

/-! ## requests -/

theorem get_cases {now : Nat} {p : Shared Patch} (h : l.get r now = .ok (p, l')) :
    (l.cache.get? r.key = some p ∧ l' = (l.hit p).2) ∨
      (l.cache.get? r.key = none ∧ l.miss r now = .ok (p, l')) := by
  unfold get at h
  split at h
  · next found hfound =>
    cases h
    exact .inl ⟨hfound, rfl⟩
  · next hnone => exact .inr ⟨hnone, h⟩

/-- a patch that was not cached is built, named, cached and perhaps queued for its upload -/
theorem miss_eq_ok {now : Nat} {p : Shared Patch} (h : l.miss r now = .ok (p, l')) :
    ∃ patch l₁, l.build r (l.sibling? r.key.sample) = .ok (patch, l₁) ∧
      p = ⟨l₁.workshop.supply.next, patch⟩ ∧
      l' = { l₁ with
        workshop := (l₁.workshop.share patch).2
        uploadQueue := if r.uploadSoon && (l.sibling? r.key.sample).isNone
          then l₁.uploadQueue.map (· ++ [p]) else l₁.uploadQueue
        cache := l₁.cache.insert r.key p now } := by
  obtain ⟨⟨patch, l₁⟩, hbuild, h⟩ := Fault.bind_eq_ok.mp h
  refine ⟨patch, l₁, hbuild, ?_⟩
  cases hq : (r.uploadSoon && (l.sibling? r.key.sample).isNone) with
  | true =>
    simp only [hq, if_true] at h ⊢
    cases h
    exact ⟨rfl, rfl⟩
  | false =>
    simp only [hq, Bool.false_eq_true, if_false] at h ⊢
    cases h
    exact ⟨rfl, rfl⟩

end Landscape

end TerrainPatches
