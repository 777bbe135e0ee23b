import TerrainPatches.Proofs.Mesh.Stride
import TerrainPatches.Proofs.Plan
import TerrainPatches.Proofs.Workshop.Steps

/-!
# What is put together looks as planned

A workshop is sound if what it remembers looks as it would if it were made now (`Sound`).  It
starts so, and every step keeps it so (`Steps.sound`).  Whatever a sound workshop puts together
therefore looks as planned, whether it was remembered or made: `bare_layers`, `bare_passes`,
`bare_tileGrid`, `bare_tile` and `bare_composite`, one for each thing a workshop makes.  Where a plan
has a fault, the workshop has the same fault.
-/

namespace TerrainPatches

/-! ## stitching depends on the edge bits -/

theorem Seams.delta_congr {a b : Seams} (h : a.edgeBits = b.edgeBits) (side : Side) :
    a.delta side = b.delta side := by
  have low : a.bits.toNat % 65536 = b.bits.toNat % 65536 := by
    rw [← toNat_edgeBits, ← toNat_edgeBits, h]
  apply UInt8.toNat.inj
  rw [toNat_delta, toNat_delta]
  cases side <;> simp only [Side.shift, UInt32.toNat_ofNat] <;> norm_num <;> omega

theorem Mesh.triangles_congr {a b : Seams} (h : a.edgeBits = b.edgeBits) (n : Nat) :
    triangles n a = triangles n b := by
  unfold triangles rings Seams.anyDelta strip
  simp only [h, Seams.delta_congr h]

theorem IndexBuffer.build_congr {a b : Seams} (h : a.edgeBits = b.edgeBits) (n : Nat) :
    build n a = build n b := by
  unfold build Mesh.indices
  rw [h, Mesh.triangles_congr h]

/-! ## questions are answered by the source -/

namespace Requests

variable (requests : Requests) (source : Source) (level : UInt8) (place : Place)

theorem map_askVertices (baked : Bool) :
    (requests.askVertices source level place baked).map Prod.fst
      = source.vertices level place baked := by
  unfold askVertices
  cases source.vertices level place baked <;> rfl

theorem map_askTileColors :
    (requests.askTileColors source level place).map Prod.fst = source.tileColors level place := by
  unfold askTileColors
  cases source.tileColors level place <;> rfl

end Requests

/-! ## genuine buffers -/

/-- every buffer is what it would be if it were made now -/
structure GridBuffers.Genuine (buffers : GridBuffers) : Prop where
  index : ∀ b ∈ buffers.index, ∃ n seams, b.val = .build n seams
  uv : ∀ b ∈ buffers.uv, ∃ n, b.val = .build n

namespace GridBuffers

theorem genuine_empty : empty.Genuine where
  index _ h := absurd h List.not_mem_nil
  uv _ h := absurd h List.not_mem_nil

variable {buffers : GridBuffers}

theorem Genuine.findIndex? (h : buffers.Genuine) {n : Nat} {seams : Seams}
    {b : Shared IndexBuffer} (hb : buffers.findIndex? n seams.edgeBits = some b) :
    b.val = .build n seams := by
  obtain ⟨n', seams', hbuild⟩ := h.index b (List.mem_of_find?_eq_some hb)
  have hk := List.find?_some hb
  rw [hbuild, Bool.and_eq_true, beq_iff_eq, beq_iff_eq] at hk
  obtain ⟨hn, he⟩ := hk
  rw [hbuild, ← hn, ← IndexBuffer.build_congr he]
  rfl

theorem Genuine.findUv? (h : buffers.Genuine) {n : Nat} {b : Shared UvBuffer}
    (hb : buffers.findUv? n = some b) : b.val = .build n := by
  obtain ⟨n', hbuild⟩ := h.uv b (List.mem_of_find?_eq_some hb)
  have hk := List.find?_some hb
  rw [hbuild, beq_iff_eq] at hk
  rw [hbuild, ← hk]
  rfl

/-- what the grid of a square is, whatever it was made for -/
theorem Genuine.fits (h : buffers.Genuine) {cellVertices : Nat} {s : Square Float32}
    (hs : s.Even) {g : TileGrid} (hg : g.Fits cellVertices buffers (.ofSquare s)) :
    ∃ n, resolution cellVertices s.size 0 = .ok n ∧
      g.positions.elements = s.bakedGrid n ∧ g.uvs.val = .build n ∧
        g.indices.val = .build n .none := by
  obtain ⟨n, hn, huv, hindex, hpos⟩ := hg
  refine ⟨n, hn, ?_, h.findUv? huv, h.findIndex? hindex⟩
  have height : -(TileKey.ofSquare s).width = s.rect.frame.height := by
    show -(s.rect.shape.x * _) = -(s.rect.shape.y * Scalar.two)
    rw [hs]
  rw [height] at hpos
  exact hpos

end GridBuffers

namespace Workshop

variable {site : Site} {w w' : Workshop}

theorem mem_index_indexBuffer {n : Nat} {seams : Seams} {b : Shared IndexBuffer}
    (h : b ∈ (w.indexBuffer n seams).2.buffers.index) :
    b.val = .build n seams ∨ b ∈ w.buffers.index := by
  simp only [indexBuffer, GridBuffers.indexBuffer] at h
  split at h
  · exact .inr h
  · refine (List.mem_cons.mp h).imp_left ?_
    intro hb
    rw [hb]
    rfl

theorem uv_indexBuffer (w : Workshop) (n : Nat) (seams : Seams) :
    (w.indexBuffer n seams).2.buffers.uv = w.buffers.uv := by
  simp only [indexBuffer, GridBuffers.indexBuffer]
  split <;> rfl

theorem mem_uv_uvBuffer {n : Nat} {b : Shared UvBuffer}
    (h : b ∈ (w.uvBuffer n).2.buffers.uv) : b.val = .build n ∨ b ∈ w.buffers.uv := by
  simp only [uvBuffer, GridBuffers.uvBuffer] at h
  split at h
  · exact .inr h
  · refine (List.mem_cons.mp h).imp_left ?_
    intro hb
    rw [hb]
    rfl

theorem index_uvBuffer (w : Workshop) (n : Nat) :
    (w.uvBuffer n).2.buffers.index = w.buffers.index := by
  simp only [uvBuffer, GridBuffers.uvBuffer]
  split <;> rfl

theorem Step.genuine (h : Step site w w') (hw : w.buffers.Genuine) : w'.buffers.Genuine := by
  cases h with
  | indexBuffer n seams =>
    refine ⟨?_, by rw [uv_indexBuffer]; exact hw.uv⟩
    intro b hb
    exact (mem_index_indexBuffer hb).elim (fun h => ⟨n, seams, h⟩) (hw.index b)
  | uvBuffer n =>
    refine ⟨by rw [index_uvBuffer]; exact hw.index, ?_⟩
    intro b hb
    exact (mem_uv_uvBuffer hb).elim (fun h => ⟨n, h⟩) (hw.uv b)
  | _ => exact hw

theorem Steps.genuine (h : Steps site w w') (hw : w.buffers.Genuine) : w'.buffers.Genuine := by
  induction h with
  | refl => exact hw
  | tail _ step ih => exact step.genuine ih

/-! ## sound workshops -/

/-- what is remembered looks as if it were made now -/
structure Sound (site : Site) (w : Workshop) : Prop where
  textures : ∀ e ∈ w.textures.byPath, e.2.val = site.scene.texture e.1
  index : ∀ b ∈ w.buffers.index, ∃ n seams, b.val = .build n seams
  uv : ∀ b ∈ w.buffers.uv, ∃ n, b.val = .build n
  grids : w.Stocked site.cellVertices

theorem sound_initial (site : Site) : initial.Sound site where
  textures _ h := absurd h List.not_mem_nil
  index _ h := absurd h List.not_mem_nil
  uv _ h := absurd h List.not_mem_nil
  grids := stocked_of_no_grids rfl

/-- forgetting the shared buffers and the grids of tiles -/
theorem Sound.clear (h : w.Sound site) : w.clearBuffers.clearTileGrids.Sound site where
  textures := h.textures
  index _ h := absurd h List.not_mem_nil
  uv _ h := absurd h List.not_mem_nil
  grids := stocked_of_no_grids rfl

theorem mem_byPath_texture {path : String} {e : String × Shared Texture}
    (h : e ∈ (w.texture site path).2.textures.byPath) :
    e.2.val = site.scene.texture e.1 ∨ e ∈ w.textures.byPath := by
  have made (h : e ∈ (w.textures.make site.scene path w.supply).2.1.byPath) :
      e.2.val = site.scene.texture e.1 ∨ e ∈ w.textures.byPath := by
    refine (List.mem_cons.mp h).imp_left ?_
    intro he
    rw [he]
    rfl
  simp only [texture, TextureStock.acquire] at h
  split at h
  · split at h
    · exact .inr h
    · exact made h
  · exact made h

theorem Sound.genuine (hw : w.Sound site) : w.buffers.Genuine := ⟨hw.index, hw.uv⟩

theorem Step.sound (h : Step site w w') (hw : w.Sound site) : w'.Sound site := by
  obtain ⟨index, uv⟩ := h.genuine hw.genuine
  refine ⟨?_, index, uv, h.stocked hw.grids⟩
  cases h with
  | texture path => exact fun e he => (mem_byPath_texture he).elim id (hw.textures e)
  | _ => exact hw.textures

theorem Steps.sound (h : Steps site w w') (hw : w.Sound site) : w'.Sound site := by
  induction h with
  | refl => exact hw
  | tail _ step ih => exact step.sound ih

/-! ## shared buffers and textures -/

theorem bare_indexBuffer (hw : w.Sound site) (n : Nat) (seams : Seams) :
    (w.indexBuffer n seams).1.bare = ⟨0, .build n seams⟩ := by
  have hw' := (Step.indexBuffer n seams : Step site w _).sound hw
  rw [Shared.bare, hw'.genuine.findIndex? (findIndex?_indexBuffer w n seams)]

theorem bare_uvBuffer (hw : w.Sound site) (n : Nat) :
    (w.uvBuffer n).1.bare = ⟨0, .build n⟩ := by
  have hw' := (Step.uvBuffer n : Step site w _).sound hw
  rw [Shared.bare, hw'.genuine.findUv? (findUv?_uvBuffer w n)]

theorem bare_texture (hw : w.Sound site) (path : String) :
    (w.texture site path).1.bare = ⟨0, site.scene.texture path⟩ := by
  simp only [texture, TextureStock.acquire]
  split
  · cases h : w.textures.byPath.lookup path with
    | none => rfl
    | some t =>
      exact congrArg (Shared.mk 0) (hw.textures (path, t) (mem_of_lookup h))
  · rfl

/-! ## passes -/

theorem bare_layer (hw : w.Sound site) (baked : Bool) (spec : LayerSpec) :
    (w.layer site baked spec).1.bare = Plan.layer site baked spec := by
  have hw' := (Step.texture spec.diffuse : Step site w _).sound hw
  unfold layer Plan.layer
  cases spec.normal with
  | none => simp only [Layer.bare, bare_texture hw, Option.map_none, ite_self]
  | some path =>
    cases baked with
    | true => simp only [if_true, Layer.bare, bare_texture hw, Option.map_none]
    | false =>
      simp only [Bool.false_eq_true, if_false, Layer.bare, bare_texture hw, bare_texture hw',
        Option.map_some]

theorem bare_layers (hw : w.Sound site) (baked : Bool) (specs : List LayerSpec) :
    (w.layers site baked specs).1.map Layer.bare = specs.map (Plan.layer site baked) := by
  induction specs generalizing w with
  | nil => rfl
  | cons spec specs ih =>
    simp only [layers, List.map_cons, bare_layer hw, ih ((steps_layer w site baked spec).sound hw)]

theorem bare_blendMaps (w : Workshop) (images : List GrayImage) :
    (w.blendMaps images).1.map Shared.bare = images.map Plan.blendMap := by
  induction images generalizing w with
  | nil => rfl
  | cons image images ih =>
    simp only [blendMaps, List.map_cons, ih]
    rfl

theorem bare_passes (hw : w.Sound site) (place : Place) (baked : Bool) :
    (w.passes site place baked).1.map Pass.bare = Plan.passes site place baked := by
  have hw' := (Step.ask (w.requests.askLayers site.source place).2 : Step site w _).sound hw
  simp only [passes, Pass.map_bare_ofLayers, bare_layers hw', bare_blendMaps]
  rfl

theorem bare_bakedPasses (scene : Scene) (target : Shared Texture) :
    (bakedPasses scene target).map Pass.bare = bakedPasses scene target.bare :=
  Pass.map_bare_ofLayers _ _ _ _ _

/-! ## tiles -/

/-- a grid that fits its square looks as planned -/
theorem Sound.fits (hw : w.Sound site) {s : Square Float32} (hs : s.Even) {g : TileGrid}
    (h : g.Fits site.cellVertices w.buffers (.ofSquare s)) :
    Plan.tileGrid site s = .ok g.bare := by
  obtain ⟨n, hn, hpos, huv, hindex⟩ := hw.genuine.fits hs h
  rw [Plan.tileGrid, hn, TileGrid.bare, Shared.bare, Shared.bare, VertexArray.bare, huv, hindex,
    hpos]
  rfl

theorem bare_tileGrid (hw : w.Sound site) {s : Square Float32} (hs : s.Even) :
    (w.tileGrid site.cellVertices s).map (fun a => a.1.val.bare) = Plan.tileGrid site s := by
  cases h : w.tileGrid site.cellVertices s with
  | ok a =>
    obtain ⟨g, w'⟩ := a
    obtain ⟨steps, found⟩ := steps_tileGrid hs h
    have hw' := steps.sound hw
    exact (hw'.fits hs (hw'.grids found)).symm
  | error f =>
    unfold tileGrid makeTileGrid at h
    split at h
    · cases h
    · split at h
      · next e he =>
        cases h
        rw [Plan.tileGrid, he]
        rfl
      · cases h

theorem bare_tile (hw : w.Sound site) {s : Square Float32} (hs : s.Even) :
    (w.tile site s).map (fun a => a.1.bare) = Plan.tile site s := by
  unfold tile Plan.tile
  refine Fault.map_bind (bare_tileGrid hw hs) ?_
  intro a ha
  obtain ⟨g, w₁⟩ := a
  have hw₁ := (steps_tileGrid hs ha).1.sound hw
  refine Fault.map_bind (Requests.map_askTileColors _ _ _ _) ?_
  intro c hc
  obtain ⟨colors, requests⟩ := c
  have hw₂ := (Step.ask requests : Step site w₁ _).sound hw₁
  have passes := bare_passes hw₂ (site.place s.size s.center) true
  refine congrArg Except.ok ?_
  simp only [Tile.bare, List.map_append, List.map_map, ← passes]
  rfl

theorem bare_tiles (hw : w.Sound site) {ss : List (Square Float32)} (hs : ∀ s ∈ ss, s.Even) :
    (w.tiles site ss).map (fun a => a.1.map Tile.bare) = Plan.tiles site ss := by
  induction ss generalizing w with
  | nil => rfl
  | cons s ss ih =>
    have hs₁ := hs s List.mem_cons_self
    refine Fault.map_bind (bare_tile hw hs₁) ?_
    intro a ha
    have hw₁ := (steps_tile hs₁ ha).1.sound hw
    refine Fault.map_bind (ih hw₁ fun q hq => hs q (List.mem_cons_of_mem s hq)) ?_
    intro b hb
    rfl

theorem bare_composite (hw : w.Sound site) (maxTileSize size : Float32) (center : Point2 Float32)
    (target : Shared Texture) :
    (w.composite site maxTileSize size center target).map (fun a => a.1.bare)
      = Plan.composite site maxTileSize size center target.bare := by
  refine Fault.map_bind (congrFun Except.map_id _) ?_
  intro leaves hleaves
  refine Fault.map_bind (bare_tiles hw (Quadtree.even_of_mem_split hleaves)) ?_
  intro a ha
  rfl

end Workshop

end TerrainPatches
