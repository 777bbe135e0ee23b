import TerrainPatches.Proofs.Workshop.Steps

/-!
# What is asked of the source

Passes take one question about layers; besides, they only give identities and make textures
(`Paints`).  A tile takes one question about its colors and those of its passes; its grid takes none,
whether it is remembered or made.  So a composite takes as many questions of each of the two kinds
as it has tiles (`requests_composite`).
-/

namespace TerrainPatches

namespace Requests

/-- the questions after those about some layers -/
def addLayers (r : Requests) (n : Nat) : Requests := { r with layers := r.layers + n }

/-- the questions after those about some tiles -/
def addTiles (r : Requests) (n : Nat) : Requests :=
  { r with tileColors := r.tileColors + n, layers := r.layers + n }

theorem addTiles_addTiles (r : Requests) (m n : Nat) :
    (r.addTiles m).addTiles n = r.addTiles (m + n) := by
  simp only [addTiles, Nat.add_assoc]

end Requests

namespace Workshop

variable {site : Site} {w w' w'' : Workshop}

/-! ## passes -/

/-- `w'` is `w` but for identities that were given and textures that were made -/
def Paints (w w' : Workshop) : Prop := ∃ supply textures, w' = { w with supply, textures }

theorem Paints.trans (h : Paints w w') (h' : Paints w' w'') : Paints w w'' := by
  obtain ⟨s, t, rfl⟩ := h
  obtain ⟨s', t', rfl⟩ := h'
  exact ⟨s', t', rfl⟩

section
variable (w : Workshop) (site : Site)

theorem paints_texture (path : String) : Paints w (w.texture site path).2 := ⟨_, _, rfl⟩

theorem paints_layer (baked : Bool) (spec : LayerSpec) :
    Paints w (w.layer site baked spec).2 := by
  have diffuse := paints_texture w site spec.diffuse
  unfold layer
  cases spec.normal with
  | none => exact diffuse
  | some path =>
    cases baked with
    | true => exact diffuse
    | false => exact diffuse.trans (paints_texture _ site path)

theorem paints_layers (baked : Bool) (specs : List LayerSpec) :
    Paints w (w.layers site baked specs).2 := by
  induction specs generalizing w with
  | nil => exact ⟨_, _, rfl⟩
  | cons spec specs ih => exact (paints_layer w site baked spec).trans (ih _)

theorem paints_blendMaps (images : List GrayImage) : Paints w (w.blendMaps images).2 := by
  induction images generalizing w with
  | nil => exact ⟨_, _, rfl⟩
  | cons image images ih =>
    exact Paints.trans ⟨_, _, rfl⟩ (ih (w.share (Texture.blendMap image)).2)

/-- passes take one question about layers -/
theorem paints_passes (place : Place) (baked : Bool) :
    Paints { w with requests := w.requests.addLayers 1 } (w.passes site place baked).2 :=
  (paints_layers _ site baked _).trans (paints_blendMaps _ _)

theorem requests_passes (place : Place) (baked : Bool) :
    (w.passes site place baked).2.requests = w.requests.addLayers 1 := by
  obtain ⟨supply, textures, h⟩ := paints_passes w site place baked
  rw [h]

end

/-! ## tiles -/

theorem requests_tileGrid {cellVertices : Nat} {s : Square Float32} {g : Shared TileGrid}
    (h : w.tileGrid cellVertices s = .ok (g, w')) : w'.requests = w.requests := by
  unfold tileGrid at h
  split at h
  · cases h
    rfl
  · obtain ⟨n, w₁, w₂, w₃, -, rfl, rfl, rfl, -, -, -, -, rfl⟩ := makeTileGrid_eq_ok h
    rfl

theorem requests_tile {s : Square Float32} {t : Tile} (h : w.tile site s = .ok (t, w')) :
    w'.requests = w.requests.addTiles 1 := by
  obtain ⟨g, w₁, colors, w₂, w₃, hg, -, e₂, e₃, rfl, -⟩ := tile_eq_ok h
  show w₃.requests = _
  rw [e₃, requests_passes, e₂, requests_tileGrid hg]
  rfl

theorem requests_tiles {ss : List (Square Float32)} {ts : List Tile}
    (h : w.tiles site ss = .ok (ts, w')) : w'.requests = w.requests.addTiles ts.length := by
  induction ss generalizing w ts with
  | nil =>
    cases h
    rfl
  | cons s ss ih =>
    obtain ⟨t, w₁, rest, ht, hrest, rfl⟩ := tiles_cons_eq_ok h
    rw [ih hrest, requests_tile ht, Requests.addTiles_addTiles, Nat.add_comm, List.length_cons]

/-- **A composite takes two questions for each tile.** -/
theorem requests_composite {maxTileSize size : Float32} {center : Point2 Float32}
    {target : Shared Texture} {c : Composite}
    (h : w.composite site maxTileSize size center target = .ok (c, w')) :
    w'.requests = w.requests.addTiles c.tiles.length := by
  obtain ⟨leaves, -, h⟩ := Fault.bind_eq_ok.mp h
  obtain ⟨⟨tiles, w₁⟩, htiles, h⟩ := Fault.bind_eq_ok.mp h
  cases h
  exact requests_tiles htiles

end Workshop

end TerrainPatches
