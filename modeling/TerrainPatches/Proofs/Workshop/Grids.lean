import TerrainPatches.Proofs.Baking
import TerrainPatches.Proofs.Workshop.Planned
import TerrainPatches.Proofs.Workshop.Questions

/-!
# The table of grids

A workshop is in order if what it remembers for tiles can be relied on (`InOrder`): every grid fits
its key, every buffer is genuine, and the table gives one grid to each key and one key to each grid.
None of this depends on the site, only on the number of vertices of a cell, so tiles of many sites
can be made in one workshop.

A composite made in such a workshop has the grids that its tiles would have alone, and it adds the
keys of its tiles to the table and no others (`inOrder_composite`).  Whether it can be made does not
depend on what is remembered (`exists_composite_iff`).
-/

namespace TerrainPatches

/-! ## the grids of a tile -/

def Draw.grid? : Draw → Option (Shared TileGrid)
  | .layer _ _ => none
  | .detail grid _ _ => some grid

/-- the grids that a tile draws -/
def Tile.grids (t : Tile) : List (Shared TileGrid) := t.draws.filterMap Draw.grid?

def Tile.key (t : Tile) : TileKey := .ofSquare t.square

/-- a tile draws one grid, flat over the frame of its square -/
theorem Tile.Detailed.grids {t : Tile} {n : Nat} (h : t.Detailed n) : ∃ g, t.grids = [g] ∧
    g.val.positions.elements = t.square.bakedGrid n ∧ g.val.uvs.val = .build n ∧
    g.val.indices.val = .build n .none := by
  obtain ⟨passes, g, colors, hdraws, parts⟩ := h
  have layers : passes.filterMap (Draw.grid? ∘ Draw.layer t.square.quad) = [] :=
    List.filterMap_eq_nil_iff.mpr fun _ _ => rfl
  refine ⟨g, ?_, parts⟩
  rw [Tile.grids, hdraws, List.filterMap_append, List.filterMap_map, layers]
  rfl

theorem Tile.Remembered.lookup {w : Workshop} {t : Tile} (h : t.Remembered w)
    {g : Shared TileGrid} (hg : g ∈ t.grids) : w.tileGrids.lookup t.key = some g := by
  obtain ⟨d, hd, hgrid⟩ := List.mem_filterMap.mp hg
  cases d with
  | layer quad pass => cases hgrid
  | detail grid colors blend =>
    cases hgrid
    exact h g colors blend hd

namespace Workshop

variable {site : Site} {w w' : Workshop} {cellVertices : Nat}

/-! ## keys and grids -/

/-- the keys that have a grid -/
def keys (w : Workshop) : List TileKey := w.tileGrids.map Prod.fst

/-- every key has one grid, and every grid has one key -/
structure Indexed (w : Workshop) : Prop where
  nodup_keys : w.keys.Nodup
  nodup_ids : (w.tileGrids.map fun e => e.2.id).Nodup
  given : ∀ e ∈ w.tileGrids, e.2.id < w.supply.next

theorem not_mem_keys {k : TileKey} (h : w.tileGrids.lookup k = none) : k ∉ w.keys := by
  intro hk
  obtain ⟨e, he, rfl⟩ := List.mem_map.mp hk
  exact bne_iff_ne.mp (List.lookup_eq_none_iff.mp h e he) rfl

theorem Indexed.same_iff (hw : w.Indexed) {k k' : TileKey} {g g' : Shared TileGrid}
    (h : w.tileGrids.lookup k = some g) (h' : w.tileGrids.lookup k' = some g') :
    (g.id = g'.id ↔ k = k') ∧ (g.id = g'.id → g = g') := by
  have entry (same : g.id = g'.id) : (k, g) = (k', g') :=
    List.inj_on_of_nodup_map hw.nodup_ids (mem_of_lookup h) (mem_of_lookup h') same
  refine ⟨?_, fun same => congrArg Prod.snd (entry same)⟩
  constructor
  · exact fun same => congrArg Prod.fst (entry same)
  · intro hk
    rw [hk, h'] at h
    cases h
    rfl

theorem Indexed.keep (hw : w.Indexed) (grids : w'.tileGrids = w.tileGrids)
    (later : w.supply.next ≤ w'.supply.next) : w'.Indexed := by
  refine ⟨?_, ?_, ?_⟩
  · rw [Workshop.keys, grids]
    exact hw.nodup_keys
  · rw [grids]
    exact hw.nodup_ids
  · rw [grids]
    exact fun e he => (hw.given e he).trans_le later

/-- a new grid for a new key -/
theorem Indexed.cons (hw : w.Indexed) {k : TileKey} {g : Shared TileGrid} (hk : k ∉ w.keys)
    (hg : w.supply.next ≤ g.id) (grids : w'.tileGrids = (k, g) :: w.tileGrids)
    (later : g.id < w'.supply.next) : w'.Indexed := by
  have new : g.id ∉ w.tileGrids.map fun e => e.2.id := by
    intro h
    obtain ⟨e, he, same⟩ := List.mem_map.mp h
    exact absurd (hw.given e he) (not_lt.mpr (hg.trans same.ge))
  refine ⟨?_, ?_, ?_⟩
  · rw [keys, grids]
    exact List.nodup_cons.mpr ⟨hk, hw.nodup_keys⟩
  · rw [grids]
    exact List.nodup_cons.mpr ⟨new, hw.nodup_ids⟩
  · rw [grids]
    exact List.forall_mem_cons.mpr
      ⟨later, fun e he => (hw.given e he).trans_le (hg.trans later.le)⟩

/-! ## workshops in order -/

/-- what is remembered for tiles can be relied on -/
structure InOrder (cellVertices : Nat) (w : Workshop) : Prop where
  stocked : w.Stocked cellVertices
  genuine : w.buffers.Genuine
  indexed : w.Indexed

/-- a workshop without grids and buffers is in order -/
theorem inOrder_of_nothing (noGrids : w.tileGrids = []) (noBuffers : w.buffers = .empty) :
    w.InOrder cellVertices where
  stocked := stocked_of_no_grids noGrids
  genuine := by
    rw [noBuffers]
    exact GridBuffers.genuine_empty
  indexed := by
    refine ⟨?_, ?_, ?_⟩
    · rw [keys, noGrids]
      exact List.nodup_nil
    · rw [noGrids]
      exact List.nodup_nil
    · rw [noGrids]
      exact fun e he => absurd he List.not_mem_nil

/-! ## tiles -/

theorem indexed_tileGrid {s : Square Float32} {g : Shared TileGrid} (hw : w.Indexed)
    (h : w.tileGrid cellVertices s = .ok (g, w')) :
    w'.Indexed ∧ w'.keys ⊆ .ofSquare s :: w.keys := by
  unfold tileGrid at h
  split at h
  · cases h
    exact ⟨hw, List.subset_cons_self _ _⟩
  · next hnone =>
    obtain ⟨n, w₁, w₂, w₃, -, e₁, e₂, e₃, -, -, -, hid, rfl⟩ := makeTileGrid_eq_ok h
    have grids : w₃.tileGrids = w.tileGrids := by rw [e₃, e₂, e₁]; rfl
    have later : w.supply.next ≤ w₃.supply.next :=
      calc w.supply.next ≤ w₁.supply.next := by rw [e₁]; exact Nat.le_succ _
        _ ≤ w₂.supply.next := by rw [e₂]; exact (grows_uvBuffer w₁ n).supply
        _ ≤ w₃.supply.next := by rw [e₃]; exact (grows_indexBuffer w₂ n .none).supply
    refine ⟨hw.cons (not_mem_keys hnone) (later.trans hid.ge) (congrArg _ grids) ?_, ?_⟩
    · rw [hid]
      exact Nat.lt_succ_self _
    · show .ofSquare s :: w₃.tileGrids.map Prod.fst ⊆ _
      rw [grids]
      exact List.Subset.refl _

/-- a tile adds the key of its square -/
theorem indexed_tile {s : Square Float32} {t : Tile} (hw : w.Indexed)
    (h : w.tile site s = .ok (t, w')) : w'.Indexed ∧ w'.keys ⊆ .ofSquare s :: w.keys := by
  obtain ⟨g, w₁, colors, w₂, w₃, hg, -, e₂, e₃, rfl, -⟩ := tile_eq_ok h
  obtain ⟨indexed, keys⟩ := indexed_tileGrid hw hg
  -- passes and colors leave the table alone
  have grids : w₃.tileGrids = w₁.tileGrids := by
    obtain ⟨supply, textures, painted⟩ := paints_passes w₂ site (site.place s.size s.center) true
    rw [e₃, painted, e₂]
  have later : w₁.supply.next ≤ w₃.supply.next := by
    have grown := (steps_passes w₂ site (site.place s.size s.center) true).grows.supply
    rw [← e₃, e₂] at grown
    exact grown
  refine ⟨indexed.keep grids (later.trans (Nat.le_succ _)), ?_⟩
  show w₃.tileGrids.map Prod.fst ⊆ _
  rw [grids]
  exact keys

theorem indexed_tiles {ss : List (Square Float32)} {ts : List Tile} (hw : w.Indexed)
    (h : w.tiles site ss = .ok (ts, w')) :
    w'.Indexed ∧ w'.keys ⊆ ss.map TileKey.ofSquare ++ w.keys := by
  induction ss generalizing w ts with
  | nil =>
    cases h
    exact ⟨hw, List.Subset.refl _⟩
  | cons s ss ih =>
    obtain ⟨t, w₁, rest, ht, hrest, rfl⟩ := tiles_cons_eq_ok h
    obtain ⟨indexed, first⟩ := indexed_tile hw ht
    obtain ⟨indexed', others⟩ := ih indexed hrest
    refine ⟨indexed', ?_⟩
    intro k hk
    simp only [List.map_cons, List.cons_append, List.mem_cons, List.mem_append]
    cases List.mem_append.mp (others hk) with
    | inl hk => exact .inr (.inl hk)
    | inr hk => exact (List.mem_cons.mp (first hk)).imp_right .inr

/-- the grid of a tile is the one its square would have alone -/
theorem detailed_tile {s : Square Float32} {t : Tile} (hw : w.InOrder site.cellVertices)
    (hs : s.Even) (h : w.tile site s = .ok (t, w')) :
    t.square = s ∧ ∃ n, resolution site.cellVertices s.size 0 = .ok n ∧ t.Detailed n := by
  obtain ⟨g, w₁, colors, w₂, w₃, hg, -, -, -, -, rfl⟩ := tile_eq_ok h
  obtain ⟨steps, found⟩ := steps_tileGrid hs hg
  obtain ⟨n, hn, parts⟩ := (steps.genuine hw.genuine).fits hs (steps.stocked hw.stocked found)
  exact ⟨rfl, n, hn, _, g, _, rfl, parts⟩

theorem InOrder.tile {s : Square Float32} {t : Tile} (hw : w.InOrder site.cellVertices)
    (hs : s.Even) (h : w.tile site s = .ok (t, w')) : w'.InOrder site.cellVertices := by
  obtain ⟨steps, -⟩ := steps_tile hs h
  exact ⟨steps.stocked hw.stocked, steps.genuine hw.genuine, (indexed_tile hw.indexed h).1⟩

theorem detailed_tiles {ss : List (Square Float32)} {ts : List Tile}
    (hw : w.InOrder site.cellVertices) (hs : ∀ s ∈ ss, s.Even)
    (h : w.tiles site ss = .ok (ts, w')) : ts.map (·.square) = ss ∧
      ∀ t ∈ ts, ∃ n, resolution site.cellVertices t.square.size 0 = .ok n ∧ t.Detailed n := by
  induction ss generalizing w ts with
  | nil =>
    cases h
    exact ⟨rfl, fun t ht => absurd ht List.not_mem_nil⟩
  | cons s ss ih =>
    obtain ⟨t, w₁, rest, ht, hrest, rfl⟩ := tiles_cons_eq_ok h
    obtain ⟨even, evens⟩ := List.forall_mem_cons.mp hs
    obtain ⟨rfl, detailed⟩ := detailed_tile hw even ht
    obtain ⟨squares, others⟩ := ih (hw.tile even ht) evens hrest
    exact ⟨congrArg _ squares, List.forall_mem_cons.mpr ⟨detailed, others⟩⟩

/-! ## composites -/

/-- **A composite has the grids that its tiles would have alone.** -/
theorem inOrder_composite {maxTileSize size : Float32} {center : Point2 Float32}
    {target : Shared Texture} {c : Composite} (hw : w.InOrder site.cellVertices)
    (h : w.composite site maxTileSize size center target = .ok (c, w')) :
    w'.InOrder site.cellVertices ∧ w'.keys ⊆ c.tiles.map Tile.key ++ w.keys ∧
      Quadtree.split size center maxTileSize = .ok (c.tiles.map (·.square)) ∧
      ∀ t ∈ c.tiles, ∃ n, resolution site.cellVertices t.square.size 0 = .ok n ∧
        t.Detailed n := by
  obtain ⟨leaves, hleaves, h⟩ := Fault.bind_eq_ok.mp h
  obtain ⟨⟨tiles, w₁⟩, htiles, h⟩ := Fault.bind_eq_ok.mp h
  cases h
  have even := Quadtree.even_of_mem_split hleaves
  obtain ⟨steps, -⟩ := steps_tiles even htiles
  obtain ⟨indexed, keys⟩ := indexed_tiles hw.indexed htiles
  obtain ⟨squares, detailed⟩ := detailed_tiles hw even htiles
  refine ⟨⟨steps.stocked hw.stocked, steps.genuine hw.genuine, indexed⟩, ?_, ?_, detailed⟩
  · rw [← squares, List.map_map] at keys
    exact keys
  · rw [hleaves]
    exact congrArg _ squares.symm

/-! ## what can be made -/

theorem exists_tileGrid_iff {s : Square Float32} (hw : w.Stocked cellVertices) :
    (∃ a, w.tileGrid cellVertices s = .ok a) ↔ ∃ n, resolution cellVertices s.size 0 = .ok n := by
  unfold tileGrid makeTileGrid
  cases found : w.tileGrids.lookup (.ofSquare s) with
  | some g =>
    obtain ⟨n, hn, -⟩ := hw found
    exact ⟨fun _ => ⟨n, hn⟩, fun _ => ⟨_, rfl⟩⟩
  | none =>
    cases hn : resolution cellVertices s.size 0 with
    | error f =>
      constructor <;> intro h <;> obtain ⟨a, h⟩ := h <;> cases h
    | ok n => exact ⟨fun _ => ⟨n, rfl⟩, fun _ => ⟨_, rfl⟩⟩

theorem exists_tile_iff {s : Square Float32} (hw : w.Stocked site.cellVertices) :
    (∃ a, w.tile site s = .ok a) ↔ (∃ n, resolution site.cellVertices s.size 0 = .ok n) ∧
      ∃ colors, site.source.tileColors 0 (site.place s.size s.center) = .ok colors := by
  rw [← exists_tileGrid_iff hw]
  constructor
  · intro h
    obtain ⟨⟨t, w'⟩, h⟩ := h
    obtain ⟨g, w₁, colors, -, -, hg, hcolors, -⟩ := tile_eq_ok h
    exact ⟨⟨_, hg⟩, colors, hcolors⟩
  · intro h
    obtain ⟨⟨⟨g, w₁⟩, hg⟩, colors, hcolors⟩ := h
    have asked : w₁.requests.askTileColors site.source 0 (site.place s.size s.center)
        = .ok (colors, { w₁.requests with tileColors := w₁.requests.tileColors + 1 }) := by
      rw [Requests.askTileColors, hcolors]
    exact ⟨_, Fault.bind_eq_ok.mpr ⟨_, hg, Fault.bind_eq_ok.mpr ⟨_, asked, rfl⟩⟩⟩

theorem exists_tiles_iff {ss : List (Square Float32)} (hw : w.Stocked site.cellVertices)
    (hs : ∀ s ∈ ss, s.Even) :
    (∃ a, w.tiles site ss = .ok a) ↔
      ∀ s ∈ ss, (∃ n, resolution site.cellVertices s.size 0 = .ok n) ∧
        ∃ colors, site.source.tileColors 0 (site.place s.size s.center) = .ok colors := by
  induction ss generalizing w with
  | nil => exact ⟨fun _ s hs => absurd hs List.not_mem_nil, fun _ => ⟨_, rfl⟩⟩
  | cons s ss ih =>
    rw [List.forall_mem_cons, ← exists_tile_iff hw]
    obtain ⟨even, evens⟩ := List.forall_mem_cons.mp hs
    constructor
    · intro h
      obtain ⟨⟨ts, w'⟩, h⟩ := h
      obtain ⟨t, w₁, rest, ht, hrest, -⟩ := tiles_cons_eq_ok h
      obtain ⟨steps, -⟩ := steps_tile even ht
      exact ⟨⟨_, ht⟩, (ih (steps.stocked hw) evens).mp ⟨_, hrest⟩⟩
    · intro h
      obtain ⟨⟨⟨t, w₁⟩, ht⟩, others⟩ := h
      obtain ⟨steps, -⟩ := steps_tile even ht
      obtain ⟨⟨rest, w₂⟩, hrest⟩ := (ih (steps.stocked hw) evens).mpr others
      exact ⟨_, Fault.bind_eq_ok.mpr ⟨_, ht, Fault.bind_eq_ok.mpr ⟨_, hrest, rfl⟩⟩⟩

/-- **What is remembered does not decide whether a composite can be made.** -/
theorem exists_composite_iff {maxTileSize size : Float32} {center : Point2 Float32}
    {target : Shared Texture} (hw : w.Stocked site.cellVertices) :
    (∃ a, w.composite site maxTileSize size center target = .ok a) ↔
      ∃ leaves, Quadtree.split size center maxTileSize = .ok leaves ∧
        ∀ s ∈ leaves, (∃ n, resolution site.cellVertices s.size 0 = .ok n) ∧
          ∃ colors, site.source.tileColors 0 (site.place s.size s.center) = .ok colors := by
  constructor
  · intro h
    obtain ⟨a, h⟩ := h
    obtain ⟨leaves, hleaves, h⟩ := Fault.bind_eq_ok.mp h
    obtain ⟨tiles, htiles, -⟩ := Fault.bind_eq_ok.mp h
    have made := exists_tiles_iff hw (Quadtree.even_of_mem_split hleaves)
    exact ⟨leaves, hleaves, made.mp ⟨tiles, htiles⟩⟩
  · intro h
    obtain ⟨leaves, hleaves, h⟩ := h
    have made := exists_tiles_iff hw (Quadtree.even_of_mem_split hleaves)
    obtain ⟨tiles, htiles⟩ := made.mpr h
    exact ⟨_, Fault.bind_eq_ok.mpr ⟨_, hleaves, Fault.bind_eq_ok.mpr ⟨_, htiles, rfl⟩⟩⟩

end Workshop

end TerrainPatches
