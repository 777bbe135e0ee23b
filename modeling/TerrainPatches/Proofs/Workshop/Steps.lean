import TerrainPatches.Proofs.Quadtree.Leaves
import TerrainPatches.Workshop

/-!
# What is done in a workshop

Whatever is put together in a workshop, passes or a whole composite, takes it through steps of six
kinds (`Step`): identities are given, the source is asked, and a texture, an index buffer, a
texture coordinate buffer or a grid of a tile is looked up and made if it is missing.  So a fact
that no step of these kinds disturbs is kept by everything built.  Main statements:

* `Steps.grows`    what can be looked up once can be looked up ever after, with the same result;
* `Steps.stocked`  the buffers of every remembered grid are those that are looked up.
-/

namespace TerrainPatches

/-- the grid is what its key stands for: flat over the rectangle, upside down, with the buffers
of its resolution that are looked up now -/
def TileGrid.Fits (cellVertices : Nat) (buffers : GridBuffers) (k : TileKey) (g : TileGrid) :
    Prop :=
  ∃ n, resolution cellVertices k.size 0 = .ok n ∧ buffers.findUv? n = some g.uvs ∧
    buffers.findIndex? n Seams.none.edgeBits = some g.indices ∧
    g.positions.elements = Grid.flat n k.center k.width (-k.width)

namespace Workshop

variable {site : Site} {w w' w'' : Workshop}

inductive Step (site : Site) (w : Workshop) : Workshop → Prop where
  | name (supply : Supply) (later : w.supply.next ≤ supply.next) : Step site w { w with supply }
  | ask (requests : Requests) : Step site w { w with requests }
  | texture (path : String) : Step site w (w.texture site path).2
  | indexBuffer (n : Nat) (seams : Seams) : Step site w (w.indexBuffer n seams).2
  | uvBuffer (n : Nat) : Step site w (w.uvBuffer n).2
  | grid (k : TileKey) (g : Shared TileGrid) (new : w.tileGrids.lookup k = none)
      (fits : g.val.Fits site.cellVertices w.buffers k) :
      Step site w { w with tileGrids := (k, g) :: w.tileGrids }

/-- any number of steps -/
abbrev Steps (site : Site) : Workshop → Workshop → Prop := Relation.ReflTransGen (Step site)

/-! ## looking up -/

theorem findIndex?_indexBuffer (w : Workshop) (n : Nat) (seams : Seams) :
    (w.indexBuffer n seams).2.buffers.findIndex? n seams.edgeBits
      = some (w.indexBuffer n seams).1 := by
  simp only [indexBuffer, GridBuffers.indexBuffer]
  cases h : w.buffers.findIndex? n seams.edgeBits with
  | some b => exact h
  | none =>
    refine List.find?_cons_of_pos ?_
    simp only [Supply.share, IndexBuffer.build, BEq.rfl, Bool.and_self]

theorem findUv?_uvBuffer (w : Workshop) (n : Nat) :
    (w.uvBuffer n).2.buffers.findUv? n = some (w.uvBuffer n).1 := by
  simp only [uvBuffer, GridBuffers.uvBuffer]
  cases h : w.buffers.findUv? n with
  | some b => exact h
  | none => exact List.find?_cons_of_pos BEq.rfl

/-! ## growth -/

/-- nothing that can be looked up is lost or replaced -/
structure Grows (w w' : Workshop) : Prop where
  supply : w.supply.next ≤ w'.supply.next
  index : ∀ {n e b}, w.buffers.findIndex? n e = some b → w'.buffers.findIndex? n e = some b
  uv : ∀ {n b}, w.buffers.findUv? n = some b → w'.buffers.findUv? n = some b
  grid : ∀ {k g}, w.tileGrids.lookup k = some g → w'.tileGrids.lookup k = some g

theorem Grows.refl (w : Workshop) : Grows w w := ⟨le_rfl, id, id, id⟩

theorem Grows.trans (h : Grows w w') (h' : Grows w' w'') : Grows w w'' :=
  ⟨h.supply.trans h'.supply, fun e => h'.index (h.index e), fun e => h'.uv (h.uv e),
    fun e => h'.grid (h.grid e)⟩

theorem grows_texture (w : Workshop) (site : Site) (path : String) :
    Grows w (w.texture site path).2 := by
  have later : w.supply.next ≤ (w.texture site path).2.supply.next := by
    simp only [texture, TextureStock.acquire, TextureStock.make, Supply.share]
    split
    · split
      · exact le_rfl
      · exact Nat.le_succ _
    · exact Nat.le_succ _
  exact ⟨later, id, id, id⟩

/-- an index buffer is only made where none is found -/
theorem grows_indexBuffer (w : Workshop) (n : Nat) (seams : Seams) :
    Grows w (w.indexBuffer n seams).2 := by
  simp only [indexBuffer, GridBuffers.indexBuffer]
  cases h : w.buffers.findIndex? n seams.edgeBits with
  | some b => exact .refl w
  | none =>
    refine ⟨Nat.le_succ _, ?_, id, id⟩
    intro m e b hb
    have hne : ¬ (n = m ∧ seams.edgeBits = e) := by
      intro hk
      rw [← hk.1, ← hk.2, h] at hb
      cases hb
    refine (List.find?_cons_of_neg ?_).trans hb
    simpa [Supply.share, IndexBuffer.build] using hne

theorem grows_uvBuffer (w : Workshop) (n : Nat) : Grows w (w.uvBuffer n).2 := by
  simp only [uvBuffer, GridBuffers.uvBuffer]
  cases h : w.buffers.findUv? n with
  | some b => exact .refl w
  | none =>
    refine ⟨Nat.le_succ _, id, ?_, id⟩
    intro m b hb
    have hne : n ≠ m := by
      intro hk
      rw [← hk, h] at hb
      cases hb
    refine (List.find?_cons_of_neg ?_).trans hb
    simpa [Supply.share, UvBuffer.build] using hne

theorem Step.grows (h : Step site w w') : Grows w w' := by
  cases h with
  | name supply later => exact ⟨later, id, id, id⟩
  | ask requests => exact ⟨le_rfl, id, id, id⟩
  | texture path => exact grows_texture w site path
  | indexBuffer n seams => exact grows_indexBuffer w n seams
  | uvBuffer n => exact grows_uvBuffer w n
  | grid k g new fits =>
    refine ⟨le_rfl, id, id, ?_⟩
    intro k' g' hg
    have hne : (k' == k) = false := by
      rw [beq_eq_false_iff_ne]
      intro hk
      rw [hk, new] at hg
      cases hg
    show List.lookup k' ((k, g) :: w.tileGrids) = some g'
    rw [List.lookup_cons, hne]
    exact hg

/-- **What a workshop has given out once it gives out again.** -/
theorem Steps.grows (h : Steps site w w') : Grows w w' := by
  induction h with
  | refl => exact .refl w
  | tail _ step ih => exact ih.trans step.grows

end Workshop

/-! ## the grids that are remembered -/

theorem TileGrid.Fits.mono {cellVertices : Nat} {w w' : Workshop} {k : TileKey} {g : TileGrid}
    (h : g.Fits cellVertices w.buffers k) (hw : w.Grows w') : g.Fits cellVertices w'.buffers k := by
  obtain ⟨n, hn, huv, hindex, hpos⟩ := h
  exact ⟨n, hn, hw.uv huv, hw.index hindex, hpos⟩

namespace Workshop

variable {site : Site} {w w' : Workshop}

/-- every grid that is remembered fits its key -/
def Stocked (cellVertices : Nat) (w : Workshop) : Prop :=
  ∀ ⦃k g⦄, w.tileGrids.lookup k = some g → g.val.Fits cellVertices w.buffers k

theorem stocked_of_no_grids {cellVertices : Nat} (h : w.tileGrids = []) :
    w.Stocked cellVertices := by
  intro k g hg
  rw [h] at hg
  cases hg

theorem Step.stocked (h : Step site w w') (hw : w.Stocked site.cellVertices) :
    w'.Stocked site.cellVertices := by
  intro k' g' hg
  cases h with
  | name supply later => exact hw hg
  | ask requests => exact hw hg
  | texture path => exact (hw hg).mono (grows_texture w site path)
  | indexBuffer n seams => exact (hw hg).mono (grows_indexBuffer w n seams)
  | uvBuffer n => exact (hw hg).mono (grows_uvBuffer w n)
  | grid k g new fits =>
    replace hg : List.lookup k' ((k, g) :: w.tileGrids) = some g' := hg
    rw [List.lookup_cons] at hg
    split at hg
    · next hk =>
      cases hg
      rw [eq_of_beq hk]
      exact fits
    · exact hw hg

theorem Steps.stocked (h : Steps site w w') (hw : w.Stocked site.cellVertices) :
    w'.Stocked site.cellVertices := by
  induction h with
  | refl => exact hw
  | tail _ step ih => exact step.stocked ih

/-! ## passes -/

section
variable (w : Workshop) (site : Site)

theorem steps_share {α : Type} (a : α) : Steps site w (w.share a).2 :=
  .single (.name _ (Nat.le_succ _))

theorem steps_vertexArray {α : Type} (elements : List α) : Steps site w (w.vertexArray elements).2 :=
  .single (.name _ (Nat.le_succ _))

theorem steps_layer (baked : Bool) (spec : LayerSpec) :
    Steps site w (w.layer site baked spec).2 := by
  have diffuse : Steps site w (w.texture site spec.diffuse).2 := .single (.texture _)
  unfold layer
  cases spec.normal with
  | none => exact diffuse
  | some path =>
    cases baked with
    | true => exact diffuse
    | false => exact diffuse.tail (.texture path)

theorem steps_layers (baked : Bool) (specs : List LayerSpec) :
    Steps site w (w.layers site baked specs).2 := by
  induction specs generalizing w with
  | nil => exact .refl
  | cons spec specs ih => exact (steps_layer w site baked spec).trans (ih _)

theorem steps_blendMaps (images : List GrayImage) : Steps site w (w.blendMaps images).2 := by
  induction images generalizing w with
  | nil => exact .refl
  | cons image images ih => exact (steps_share w site _).trans (ih _)

theorem steps_passes (place : Place) (baked : Bool) :
    Steps site w (w.passes site place baked).2 :=
  (Relation.ReflTransGen.single (.ask _)).trans
    ((steps_layers _ site baked _).trans (steps_blendMaps _ site _))

end

/-! ## tiles -/

theorem fits_of_square {cellVertices n : Nat} {s : Square Float32} {buffers : GridBuffers}
    {g : TileGrid} (hs : s.Even) (hn : resolution cellVertices s.size 0 = .ok n)
    (huv : buffers.findUv? n = some g.uvs)
    (hindex : buffers.findIndex? n Seams.none.edgeBits = some g.indices)
    (hpos : g.positions.elements = s.bakedGrid n) : g.Fits cellVertices buffers (.ofSquare s) := by
  refine ⟨n, hn, huv, hindex, hpos.trans ?_⟩
  show Grid.flat n _ _ (-(s.rect.shape.y * Scalar.two)) = Grid.flat n _ _ (-(s.rect.shape.x * _))
  rw [hs]
  rfl

/-- a grid is made from four things, one after the other, and remembered -/
theorem makeTileGrid_eq_ok {cellVertices : Nat} {s : Square Float32} {g : Shared TileGrid}
    (h : w.makeTileGrid cellVertices s = .ok (g, w')) : ∃ n w₁ w₂ w₃,
      resolution cellVertices s.size 0 = .ok n ∧
      w₁ = (w.vertexArray (s.bakedGrid n)).2 ∧ w₂ = (w₁.uvBuffer n).2 ∧
      w₃ = (w₂.indexBuffer n .none).2 ∧ g.val.positions.elements = s.bakedGrid n ∧
      g.val.uvs = (w₁.uvBuffer n).1 ∧ g.val.indices = (w₂.indexBuffer n .none).1 ∧
      g.id = w₃.supply.next ∧
      w' = { (w₃.share g.val).2 with tileGrids := (.ofSquare s, g) :: w₃.tileGrids } := by
  unfold makeTileGrid at h
  split at h
  · cases h
  · next n hn =>
    cases h
    exact ⟨n, _, _, _, hn, rfl, rfl, rfl, rfl, rfl, rfl, rfl, rfl⟩

theorem steps_makeTileGrid {s : Square Float32} {g : Shared TileGrid} (hs : s.Even)
    (new : w.tileGrids.lookup (.ofSquare s) = none)
    (h : w.makeTileGrid site.cellVertices s = .ok (g, w')) :
    Steps site w w' ∧ w'.tileGrids.lookup (.ofSquare s) = some g := by
  obtain ⟨n, w₁, w₂, w₃, hn, e₁, e₂, e₃, hpos, huvs, hindices, -, rfl⟩ := makeTileGrid_eq_ok h
  refine ⟨?_, List.lookup_cons_self⟩
  have s₁ : Steps site w w₁ := e₁ ▸ steps_vertexArray w site _
  have s₂ : Step site w₁ w₂ := e₂ ▸ .uvBuffer n
  have s₃ : Step site w₂ w₃ := e₃ ▸ .indexBuffer n .none
  have hgrids : w₃.tileGrids = w.tileGrids := by rw [e₃, e₂, e₁]; rfl
  have huv : w₂.buffers.findUv? n = some g.val.uvs := by
    rw [e₂, huvs]
    exact findUv?_uvBuffer w₁ n
  have hindex : w₃.buffers.findIndex? n Seams.none.edgeBits = some g.val.indices := by
    rw [e₃, hindices]
    exact findIndex?_indexBuffer w₂ n .none
  refine (s₁.tail s₂ |>.tail s₃).trans ((steps_share w₃ site g.val).tail (.grid _ g ?_ ?_))
  · rw [← new, ← hgrids]
    rfl
  · exact fits_of_square hs hn (s₃.grows.uv huv) hindex hpos

theorem steps_tileGrid {s : Square Float32} {g : Shared TileGrid} (hs : s.Even)
    (h : w.tileGrid site.cellVertices s = .ok (g, w')) :
    Steps site w w' ∧ w'.tileGrids.lookup (.ofSquare s) = some g := by
  unfold tileGrid at h
  split at h
  · next found hfound =>
    cases h
    exact ⟨.refl, hfound⟩
  · next hnone => exact steps_makeTileGrid hs hnone h

/-- what a tile is put together from -/
theorem tile_eq_ok {s : Square Float32} {t : Tile} (h : w.tile site s = .ok (t, w')) :
    ∃ g w₁ colors w₂ w₃, w.tileGrid site.cellVertices s = .ok (g, w₁) ∧
      site.source.tileColors 0 (site.place s.size s.center) = .ok colors ∧
      w₂ = { w₁ with requests := { w₁.requests with tileColors := w₁.requests.tileColors + 1 } } ∧
      w₃ = (w₂.passes site (site.place s.size s.center) true).2 ∧
      w' = (w₃.vertexArray colors).2 ∧
      t = ⟨s, (w₂.passes site (site.place s.size s.center) true).1.map
          (Draw.layer s.quad) ++ [.detail g (w₃.vertexArray colors).1 .multiply]⟩ := by
  obtain ⟨⟨g, w₁⟩, hg, h⟩ := Fault.bind_eq_ok.mp h
  obtain ⟨⟨colors, requests⟩, hc, h⟩ := Fault.bind_eq_ok.mp h
  unfold Requests.askTileColors at hc
  split at hc
  · cases hc
  · next cs hcs =>
    cases hc
    cases h
    exact ⟨g, w₁, colors, _, _, hg, hcs, rfl, rfl, rfl, rfl⟩

end Workshop

/-- every grid of the tile is the one remembered for the tile's square -/
def Tile.Remembered (w : Workshop) (t : Tile) : Prop :=
  ∀ g colors blend, .detail g colors blend ∈ t.draws →
    w.tileGrids.lookup (.ofSquare t.square) = some g

theorem Tile.Remembered.mono {w w' : Workshop} {t : Tile} (h : t.Remembered w) (hw : w.Grows w') :
    t.Remembered w' :=
  fun g colors blend hd => hw.grid (h g colors blend hd)

namespace Workshop

variable {site : Site} {w w' : Workshop}

theorem steps_tile {s : Square Float32} {t : Tile} (hs : s.Even)
    (h : w.tile site s = .ok (t, w')) : Steps site w w' ∧ t.Remembered w' := by
  obtain ⟨g, w₁, colors, w₂, w₃, hg, -, e₂, e₃, rfl, rfl⟩ := tile_eq_ok h
  obtain ⟨s₁, hfound⟩ := steps_tileGrid hs hg
  have s₂ : Step site w₁ w₂ := e₂ ▸ .ask _
  have s₃ : Steps site w₂ w₃ := e₃ ▸ steps_passes w₂ site _ true
  have after : Steps site w₁ (w₃.vertexArray colors).2 :=
    (Relation.ReflTransGen.single s₂).trans (s₃.trans (steps_vertexArray w₃ site colors))
  refine ⟨s₁.trans after, ?_⟩
  intro g' colors' blend hd
  cases List.mem_append.mp hd with
  | inl hd =>
    obtain ⟨pass, -, hp⟩ := List.mem_map.mp hd
    cases hp
  | inr hd =>
    cases List.mem_singleton.mp hd
    exact after.grows.grid hfound

theorem tiles_cons_eq_ok {s : Square Float32} {ss : List (Square Float32)} {ts : List Tile}
    (h : w.tiles site (s :: ss) = .ok (ts, w')) : ∃ t w₁ rest, w.tile site s = .ok (t, w₁) ∧
      w₁.tiles site ss = .ok (rest, w') ∧ ts = t :: rest := by
  obtain ⟨⟨t, w₁⟩, ht, h⟩ := Fault.bind_eq_ok.mp h
  obtain ⟨⟨rest, w₂⟩, hrest, h⟩ := Fault.bind_eq_ok.mp h
  cases h
  exact ⟨t, w₁, rest, ht, hrest, rfl⟩

theorem steps_tiles {ss : List (Square Float32)} {ts : List Tile} (hs : ∀ s ∈ ss, s.Even)
    (h : w.tiles site ss = .ok (ts, w')) : Steps site w w' ∧ ∀ t ∈ ts, t.Remembered w' := by
  induction ss generalizing w ts with
  | nil =>
    cases h
    exact ⟨.refl, fun t ht => absurd ht List.not_mem_nil⟩
  | cons s ss ih =>
    obtain ⟨t, w₁, rest, ht, hrest, rfl⟩ := tiles_cons_eq_ok h
    obtain ⟨even, evens⟩ := List.forall_mem_cons.mp hs
    obtain ⟨s₁, found⟩ := steps_tile even ht
    obtain ⟨s₂, others⟩ := ih evens hrest
    exact ⟨s₁.trans s₂, List.forall_mem_cons.mpr ⟨found.mono s₂.grows, others⟩⟩

/-- a composite is made of tiles whose grids are all remembered -/
theorem steps_composite {maxTileSize size : Float32} {center : Point2 Float32}
    {target : Shared Texture} {c : Composite}
    (h : w.composite site maxTileSize size center target = .ok (c, w')) :
    Steps site w w' ∧ c.target = target ∧ ∀ t ∈ c.tiles, t.Remembered w' := by
  obtain ⟨leaves, hleaves, h⟩ := Fault.bind_eq_ok.mp h
  obtain ⟨⟨tiles, w₁⟩, htiles, h⟩ := Fault.bind_eq_ok.mp h
  cases h
  obtain ⟨steps, remembered⟩ := steps_tiles (Quadtree.even_of_mem_split hleaves) htiles
  exact ⟨steps, rfl, remembered⟩

end Workshop

end TerrainPatches
