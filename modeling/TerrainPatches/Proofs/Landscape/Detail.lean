import TerrainPatches.Proofs.Baking
import TerrainPatches.Proofs.Landscape.Painting
import TerrainPatches.Proofs.Mesh.Cover
import TerrainPatches.Proofs.Quadtree.Spans

/-!
# The detail of a composite

All tiles of a composite are on one level, so their grids have one resolution, which is that of the
size that was asked for, halved until it is not too large (`detailed_of_composite`).  A setting is
only checked for the greatest tile, which need not be the size of any: a tile may be so small that
no interval of a cell fits into it, and then its grid has no triangle (`bare_tile_of_get`).  If an
interval fits into half of the greatest tile and into the least patch that is baked, every tile has
triangles (`detail_of_get`).
-/

namespace TerrainPatches

/-! ## tiles as they are planned -/

theorem layers_of_bare {quad : Quad Float32} {draws : List Draw} {passes : List Pass}
    (h : draws.map Draw.bare = passes.map (Draw.layer quad)) :
    ∃ passes' : List Pass, draws = passes'.map (Draw.layer quad) := by
  induction draws generalizing passes with
  | nil => exact ⟨[], rfl⟩
  | cons d draws ih =>
    cases passes with
    | nil => cases h
    | cons pass passes =>
      obtain ⟨hd, hrest⟩ := List.cons.inj h
      obtain ⟨passes', rfl⟩ := ih hrest
      cases d with
      | layer quad' pass' =>
        cases hd
        exact ⟨pass' :: passes', rfl⟩
      | detail grid colors blend => cases hd

/-- identities do not matter for what a tile draws -/
theorem Tile.Detailed.of_bare {n : Nat} {t : Tile} (h : t.bare.Detailed n) : t.Detailed n := by
  obtain ⟨passes, grid, colors, hdraws, hpos, huvs, hindices⟩ := h
  obtain ⟨layers, last, happend, hlayers, hlast⟩ := List.map_eq_append_iff.mp hdraws
  obtain ⟨passes', rfl⟩ := layers_of_bare hlayers
  obtain ⟨d, hd, hdetail⟩ := List.map_eq_singleton_iff.mp hlast
  rw [hd] at happend
  cases d with
  | layer quad pass => cases hdetail
  | detail grid' colors' blend =>
    cases hdetail
    exact ⟨passes', grid', colors', happend, hpos, huvs, hindices⟩

namespace Plan

variable {site : Site} {maxTileSize size : Float32} {center : Point2 Float32}
  {target : Shared Texture} {c : Composite}

theorem tiles_eq_ok {ss : List (Square Float32)} {ts : List Tile} (h : tiles site ss = .ok ts) :
    ts.length = ss.length ∧ ∀ t ∈ ts, ∃ s ∈ ss, tile site s = .ok t := by
  induction ss generalizing ts with
  | nil =>
    cases h
    exact ⟨rfl, fun t ht => absurd ht List.not_mem_nil⟩
  | cons s ss ih =>
    obtain ⟨t, ht, h⟩ := Fault.bind_eq_ok.mp h
    obtain ⟨rest, hrest, h⟩ := Fault.bind_eq_ok.mp h
    cases h
    obtain ⟨hlength, hmem⟩ := ih hrest
    refine ⟨congrArg (· + 1) hlength, ?_⟩
    intro t' ht'
    cases List.mem_cons.mp ht' with
    | inl e => exact ⟨s, List.mem_cons_self, e ▸ ht⟩
    | inr ht' =>
      obtain ⟨s', hs', h'⟩ := hmem t' ht'
      exact ⟨s', List.mem_cons_of_mem s hs', h'⟩

/-- **All tiles of a composite have one size and one resolution.** -/
theorem detailed_of_composite (h : composite site maxTileSize size center target = .ok c.bare) :
    size.isFinite = true ∧
    ∃ k n, Settles maxTileSize size k ∧ resolution site.cellVertices (halved k size) 0 = .ok n ∧
      c.tiles.length = 4 ^ k ∧ ∀ t ∈ c.tiles, t.square.size = halved k size ∧ t.Detailed n := by
  obtain ⟨leaves, hleaves, h⟩ := Fault.bind_eq_ok.mp h
  obtain ⟨ts, hts, hc⟩ := Fault.bind_eq_ok.mp h
  obtain ⟨-, hfinite, -⟩ := Quadtree.leaves_eq_ok_iff.mp hleaves
  obtain ⟨k, hk, rfl⟩ := Quadtree.level_of_leaves hleaves
  obtain ⟨hlength, hmem⟩ := tiles_eq_ok hts
  have tiles_eq : c.tiles.map Tile.bare = ts := congrArg Composite.tiles (Except.ok.inj hc).symm
  rw [← tiles_eq, List.length_map, Quadtree.length_quarterings] at hlength
  have each : ∀ t ∈ c.tiles, t.square.size = halved k size ∧
      ∃ n, resolution site.cellVertices (halved k size) 0 = .ok n ∧ t.Detailed n := by
    intro t ht
    obtain ⟨s, hs, hplan⟩ := hmem t.bare (tiles_eq ▸ List.mem_map_of_mem ht)
    obtain ⟨hsquare, n, hn, hdetailed⟩ := detailed_of_tile hplan
    have hsize := Quadtree.size_of_mem_quarterings hs
    rw [hsize] at hn
    exact ⟨(congrArg Square.size hsquare).trans hsize, n, hn, hdetailed.of_bare⟩
  -- there is a tile, and the resolution of the others is its resolution
  obtain ⟨t, ht⟩ := List.exists_mem_of_length_pos (hlength ▸ Nat.pow_pos (by norm_num))
  obtain ⟨-, n, hn, -⟩ := each t ht
  refine ⟨hfinite, k, n, hk, hn, hlength, ?_⟩
  intro t ht
  obtain ⟨hsize, m, hm, hdetailed⟩ := each t ht
  obtain rfl : n = m := Except.ok.inj (hn.symm.trans hm)
  exact ⟨hsize, hdetailed⟩

theorem composite_of_skin {settings : Settings} {skin : Landscape.Skin}
    (h : Plan.skin site settings center size = .ok skin) {c : Shared Composite}
    (hc : skin.composite = some c) : settings.bakedFrom ≤ size ∧
      composite site settings.maxTileSize size center ⟨0, .target settings.textureSize⟩
        = .ok c.val := by
  unfold Plan.skin at h
  split at h
  · next hbaked =>
    obtain ⟨c', hc', h⟩ := Fault.bind_eq_ok.mp h
    cases h
    cases hc
    exact ⟨of_decide_eq_true hbaked, hc'⟩
  · cases h
    cases hc

end Plan

/-! ## settings that have been checked -/

namespace Settings

variable {s : Settings}

theorem sizes_of_check (h : s.check = .ok ()) :
    Scalar.zero < s.maxTileSize ∧ Scalar.zero < s.bakedFrom := by
  by_cases htile : Scalar.zero < s.maxTileSize
  · refine ⟨htile, ?_⟩
    by_contra hbaked
    simp [check, checkTileSize, htile, hbaked, bind, Except.bind, throw, throwThe,
      MonadExceptOf.throw] at h
  · simp [check, checkTileSize, htile, bind, Except.bind] at h

theorem resolution_of_checkCell {cellVertices : Nat} (h : s.checkCell cellVertices = .ok ()) :
    ∃ n, resolution cellVertices s.maxTileSize 0 = .ok n ∧ 2 ≤ n := by
  unfold checkCell at h
  split at h
  · cases h
  · split at h
    · cases h
    · next n hn =>
      split at h
      · cases h
      · next h2 => exact ⟨n, hn, not_lt.mp h2⟩

end Settings

namespace Landscape

variable {l l' : Landscape} {r : PatchRequest}

/-! ## composites in the cache -/

/-- a composite is planned for the size of a request -/
def PlannedComposite (l : Landscape) (r : PatchRequest) (c : Composite) : Prop :=
  l.settings.bakedFrom ≤ r.size ∧
    Plan.composite l.site l.settings.maxTileSize r.size r.center.number
      ⟨0, .target l.settings.textureSize⟩ = .ok c.bare

/-- every composite in the cache is planned for a request for its sample -/
structure Composed (rs : List PatchRequest) (l : Landscape) : Prop where
  kept : l.Kept
  sound : l.workshop.Sound l.site
  planned : ∀ {k p}, (k, p) ∈ l.cache.toList → ∀ c ∈ p.val.composite,
    ∃ r ∈ rs, r.key.sample = k.sample ∧ l.PlannedComposite r c.val

section
variable {rs : List PatchRequest}

theorem SkinFor.composite {s : Skin} (h : l.SkinFor r.center.number r.size s) {c : Shared Composite}
    (hc : c ∈ s.composite) : l.PlannedComposite r c.val := by
  have hbare : s.bare.composite = some ⟨0, c.val.bare⟩ := by
    rw [Skin.bare, show s.composite = some c from hc]
    rfl
  exact Plan.composite_of_skin h.planned hbare

theorem Composed.miss (hl : l.Composed rs) (hr : r ∈ rs) {now : Nat} {p : Shared Patch}
    (h : l.miss r now = .ok (p, l')) {c : Shared Composite} (hc : c ∈ p.val.composite) :
    ∃ r' ∈ rs, r'.key.sample = r.key.sample ∧ l.PlannedComposite r' c.val := by
  obtain ⟨patch, l₁, hbuild, rfl, -⟩ := miss_eq_ok h
  cases hq : l.sibling? r.key.sample with
  | none =>
    rw [hq] at hbuild
    exact ⟨r, hr, rfl, (skinFor_of_sampled hl.kept.cells hl.sound hbuild).composite hc⟩
  | some q =>
    rw [hq] at hbuild
    obtain ⟨k, hk, hs⟩ := mem_of_sibling? hl.kept.ordered hq
    rw [← hs]
    refine hl.planned hk c ?_
    rw [← (build_painted hbuild).2]
    exact hc

theorem Composed.get (hl : l.Composed rs) (hr : r ∈ rs) {now : Nat} {p : Shared Patch}
    (h : l.get r now = .ok (p, l')) {c : Shared Composite} (hc : c ∈ p.val.composite) :
    ∃ r' ∈ rs, r'.key.sample = r.key.sample ∧ l.PlannedComposite r' c.val := by
  rcases get_cases h with ⟨hp, -⟩ | ⟨-, hmiss⟩
  · exact hl.planned (ExpiringCache.mem_toList_of_get? hp) c hc
  · exact hl.miss hr hmiss hc

variable {source : Source} {scene : Scene} {queue : BakeQueue} {settings : Settings}
  {acts : List Action}

/-- what is painted is composed -/
theorem Painted.composed (h : l.Painted rs) : l.Composed rs := by
  refine ⟨h.kept, h.sound, fun hp c hc => ?_⟩
  obtain ⟨r, hr, hs, painted⟩ := h.painted hp
  exact ⟨r, hr, hs, painted.skin.composite hc⟩

theorem composed_run (hl : create source scene queue settings = .ok l) (h : l.run acts = .ok l')
    (hrs : requests acts ⊆ rs) : l'.Composed rs :=
  (painted_run hl h hrs).composed

end

/-! ## detail -/

section
variable {source : Source} {scene : Scene} {queue : BakeQueue} {settings : Settings}
  {acts : List Action} {now : Nat} {p : Shared Patch} {l₀ : Landscape}

theorem checked_of_create (hl : create source scene queue settings = .ok l) :
    settings.check = .ok () ∧ settings.checkCell (source.cellVertices settings.world) = .ok () := by
  unfold create at hl
  split at hl
  · cases hl
  · next hcheck =>
    dsimp only at hl
    split at hl
    · cases hl
    · next hcell => exact ⟨hcheck, hcell⟩

/-- **The detail of a composite.**  All tiles have one size, which is that of a request for the
sample, halved until it is not greater than the greatest tile.  All their grids have the resolution
of that size.  If it is at least two, the grids have triangles and are covered by them, and else
they have none.  It is at least two if the tiles have the greatest size, and also if an interval of
a cell fits into half of the greatest tile and into the least patch that is baked. -/
theorem detail_of_get (hl : create source scene queue settings = .ok l₀)
    (h : l₀.run acts = .ok l) (hget : l.get r now = .ok (p, l')) {c : Shared Composite}
    (hc : p.val.composite = some c) :
    ∃ r' ∈ r :: requests acts, r'.key.sample = r.key.sample ∧ settings.bakedFrom ≤ r'.size ∧
      ∃ k n, Settles settings.maxTileSize r'.size k ∧
        resolution (source.cellVertices settings.world) (halved k r'.size) 0 = .ok n ∧
        c.val.tiles.length = 4 ^ k ∧
        (∀ t ∈ c.val.tiles, t.square.size = halved k r'.size ∧ t.Detailed n) ∧
        ((Mesh.indices n .none).isEmpty = true ↔ n < 2) ∧
        (2 ≤ n → n ≤ 65536 → (Mesh.indices n .none).Covers n) ∧
        (halved k r'.size = settings.maxTileSize ∨
          Spans (source.cellVertices settings.world) (value settings.maxTileSize / 2) ∧
            Spans (source.cellVertices settings.world) (value settings.bakedFrom) → 2 ≤ n) := by
  have new := new_create hl
  have same := sameGround_run h
  have composed := composed_run hl h (List.subset_cons_self r _)
  obtain ⟨r', hr', hs, baked, planned⟩ := composed.get List.mem_cons_self hget hc
  rw [same.settings, new.settings] at baked planned
  rw [same.site, new.site] at planned
  obtain ⟨hfinite, k, n, hk, hn, hlength, htiles⟩ := Plan.detailed_of_composite planned
  refine ⟨r', hr', hs, baked, k, n, hk, hn, hlength, htiles, Mesh.isEmpty_indices n,
    Mesh.covers_indices, ?_⟩
  obtain ⟨hcheck, hcell⟩ := checked_of_create hl
  obtain ⟨tilePos, bakedPos⟩ := Settings.sizes_of_check hcheck
  rintro (greatest | ⟨half, least⟩)
  · obtain ⟨m, hm, h2⟩ := Settings.resolution_of_checkCell hcell
    rw [greatest] at hn
    obtain rfl : n = m := Except.ok.inj (hn.symm.trans hm)
    exact h2
  · obtain ⟨bakedFinite, pos⟩ := pos_of_le hfinite bakedPos baked
    have whole := least.mono ((le_iff bakedFinite hfinite).mp baked)
    obtain ⟨y, hy, hspans⟩ := spans_of_settles (holds_of_pos hfinite pos).1 tilePos hk half whole
    rw [(resolution_eq_ok hn).2.1]
    exact Nat.succ_le_succ (one_le_intervals hy hspans)

end

/-- a patch of two cells has four tiles of one cell each, and their grids are not bare -/
theorem detail_of_get_two : ∃ l l' l'' : Landscape, ∃ p c, small = .ok l ∧ l.run [] = .ok l' ∧
    l'.get (requestAtOrigin Scalar.two 0) 0 = .ok (p, l'') ∧ p.val.composite = some c ∧
    ∃ n, 2 ≤ n ∧ (∀ t ∈ c.val.tiles, t.Detailed n) ∧ (Mesh.indices n .none).isEmpty = false := by
  obtain ⟨l, l', l'', p, hl, h, hget, ht⟩ := get_small [] (requestAtOrigin Scalar.two 0)
    (fun p => p.val.composite.isSome) (by decide +kernel)
  obtain ⟨c, hc⟩ := Option.isSome_iff_exists.mp ht
  obtain ⟨r, hr, -, -, k, n, hk, -, -, htiles, hempty, -, hleast⟩ := detail_of_get hl h hget hc
  rw [List.mem_singleton.mp hr] at hk hleast
  -- two cells are halved once
  have once : k = 1 := by
    have hle : k ≤ 1 := hk.2 (show ¬ Scalar.one < halved 1 (Scalar.two : Float32) by decide +kernel)
    have hne : k ≠ 0 := by
      rintro rfl
      exact hk.1 (show Scalar.one < (Scalar.two : Float32) by decide +kernel)
    omega
  have h2 : 2 ≤ n := by
    refine hleast (.inl ?_)
    rw [once]
    exact (by decide +kernel : halved 1 (Scalar.two : Float32) = Scalar.one)
  refine ⟨l, l', l'', p, c, hl, h, hget, hc, n, h2, fun t ht => (htiles t ht).2, ?_⟩
  rw [Bool.eq_false_iff, ne_eq, hempty]
  omega

/-- whether a draw is a grid without triangles, of one vertex -/
def isBareGrid : Draw → Bool
  | .detail grid _ _ =>
    grid.val.indices.val.resolution == 1 && grid.val.indices.val.indices.isEmpty
  | .layer _ _ => false

/-- **A tile without detail.**  A cell has one interval and the greatest tile is one cell, but a
patch of one and a half is cut into tiles of three quarters. -/
theorem bare_tile_of_get : ∃ l l' l'' : Landscape, ∃ p c, small = .ok l ∧ l.run [] = .ok l' ∧
    l'.get (requestAtOrigin (Scalar.ofNat 3 / Scalar.two) 0) 0 = .ok (p, l'') ∧
    p.val.composite = some c ∧ c.val.tiles.length = 4 ∧
    ∀ t ∈ c.val.tiles, ∃ grid colors blend, .detail grid colors blend ∈ t.draws ∧
      grid.val.indices.val.resolution = 1 ∧ grid.val.indices.val.indices.isEmpty = true := by
  obtain ⟨l, l', l'', p, hl, h, hget, ht⟩ := get_small []
    (requestAtOrigin (Scalar.ofNat 3 / Scalar.two) 0) (fun p => p.val.composite.any fun c =>
      c.val.tiles.length == 4 && c.val.tiles.all fun t => t.draws.any isBareGrid)
    (by decide +kernel)
  cases hc : p.val.composite with
  | none =>
    rw [hc] at ht
    cases ht
  | some c =>
    rw [hc, Option.any_some, Bool.and_eq_true, beq_iff_eq, List.all_eq_true] at ht
    refine ⟨l, l', l'', p, c, hl, h, hget, hc, ht.1, ?_⟩
    intro t htile
    obtain ⟨d, hd, hbare⟩ := List.any_eq_true.mp (ht.2 t htile)
    cases d with
    | layer quad pass => cases hbare
    | detail grid colors blend =>
      rw [isBareGrid, Bool.and_eq_true, beq_iff_eq] at hbare
      exact ⟨grid, colors, blend, hd, hbare.1, hbare.2⟩

end Landscape

end TerrainPatches
