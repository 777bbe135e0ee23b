import TerrainPatches.Proofs.Landscape.Release

/-!
# Pieces and their slots

What can be uploaded comes in pieces (`Piece`): textures, index buffers, texture coordinate buffers
and the vertex arrays of patches, grids and composites.  A workshop gives a slot to a piece when it
makes it, and to no other piece after that.  So whatever is put together in a workshop consists of
pieces the workshop had already and of new ones, each with a slot of its own (`Workshop.Makes`).
-/

namespace TerrainPatches

/-! ## pieces -/

inductive Piece where
  | texture (t : Shared Texture)
  | indices (b : Shared IndexBuffer)
  | uvs (b : Shared UvBuffer)
  /-- one of the vertex arrays of an object -/
  | vertices (owner : ObjectId) (part : Nat) (slot : ObjectId)

def Piece.slot : Piece → ObjectId
  | .texture t => t.id
  | .indices b => b.id
  | .uvs b => b.id
  | .vertices _ _ slot => slot

def Layer.pieces (l : Layer) : List Piece :=
  .texture l.diffuse :: l.normal.toList.map .texture

def Pass.pieces (p : Pass) : List Piece := p.textures.map .texture

def Shared.gridPieces (g : Shared TileGrid) : List Piece :=
  [.vertices g.id 0 g.val.positions.slot, .uvs g.val.uvs, .indices g.val.indices]

/-- the pieces of the draw at this place among those of a composite -/
def Draw.pieces (owner : ObjectId) (place : Nat) : Draw → List Piece
  | .layer _ pass => pass.pieces
  | .detail grid colors _ => .vertices owner place colors.slot :: grid.gridPieces

/-- the pieces of the draws from this place on -/
def drawPieces (owner : ObjectId) : Nat → List Draw → List Piece
  | _, [] => []
  | place, d :: ds => d.pieces owner place ++ drawPieces owner (place + 1) ds

def Shared.compositePieces (c : Shared Composite) : List Piece :=
  .texture c.val.target :: drawPieces c.id 0 c.val.draws

def Shared.patchPieces (p : Shared Patch) : List Piece :=
  [.vertices p.id 0 p.val.positions.slot, .vertices p.id 1 p.val.normals.slot,
      .vertices p.id 2 p.val.colors.slot, .indices p.val.indices, .uvs p.val.uvs] ++
    p.val.passes.val.flatMap Pass.pieces ++ p.val.composite.toList.flatMap Shared.compositePieces

theorem drawPieces_append (owner : ObjectId) (place : Nat) (ds es : List Draw) :
    drawPieces owner place (ds ++ es)
      = drawPieces owner place ds ++ drawPieces owner (place + ds.length) es := by
  induction ds generalizing place with
  | nil => rfl
  | cons d ds ih =>
    rw [List.cons_append, drawPieces, drawPieces, ih, List.append_assoc, List.length_cons,
      Nat.add_right_comm, Nat.add_assoc]

theorem drawPieces_layers (owner : ObjectId) (place : Nat) (quad : Quad Float32)
    (passes : List Pass) :
    drawPieces owner place (passes.map (.layer quad)) = passes.flatMap Pass.pieces := by
  induction passes generalizing place with
  | nil => rfl
  | cons pass passes ih => rw [List.map_cons, drawPieces, ih, List.flatMap_cons, Draw.pieces]

theorem Pass.slot_pieces (p : Pass) : p.pieces.map Piece.slot = p.everySlot := by
  rw [← p.map_textures, pieces, List.map_map]
  rfl

theorem slot_drawPieces (owner : ObjectId) (place : Nat) (ds : List Draw) :
    (drawPieces owner place ds).map Piece.slot = ds.flatMap Draw.everySlot := by
  induction ds generalizing place with
  | nil => rfl
  | cons d ds ih =>
    rw [drawPieces, List.map_append, ih, List.flatMap_cons]
    cases d with
    | layer quad pass => exact congrArg (· ++ _) pass.slot_pieces
    | detail grid colors blend => rfl

theorem slot_compositePieces (c : Shared Composite) :
    c.compositePieces.map Piece.slot = c.val.everySlot := by
  rw [Shared.compositePieces, List.map_cons, slot_drawPieces]
  rfl

/-- the pieces of a patch stand for all that it refers to -/
theorem slot_patchPieces (p : Shared Patch) : p.patchPieces.map Piece.slot = p.val.everySlot := by
  rw [Shared.patchPieces, List.map_append, List.map_append, List.map_flatMap, List.map_flatMap]
  simp only [Pass.slot_pieces, slot_compositePieces]
  rfl

theorem mem_everySlot_iff {p : Shared Patch} {slot : ObjectId} :
    slot ∈ p.val.everySlot ↔ ∃ x ∈ p.patchPieces, x.slot = slot := by
  rw [← slot_patchPieces, List.mem_map]

/-! ## new pieces -/

/-- pieces with slots given from `n` on and before `n'`, no slot to two of them -/
structure NewPieces (n n' : ObjectId) (xs : List Piece) : Prop where
  le : n ≤ n'
  given : ∀ x ∈ xs, n ≤ x.slot ∧ x.slot < n'
  single : ∀ x ∈ xs, ∀ y ∈ xs, x.slot = y.slot → x = y

namespace NewPieces

variable {n n' n'' : ObjectId} {xs ys : List Piece}

theorem nil (h : n ≤ n') : NewPieces n n' [] where
  le := h
  given _ hx := absurd hx List.not_mem_nil
  single _ hx := absurd hx List.not_mem_nil

theorem one {x : Piece} (h : x.slot = n) : NewPieces n (n + 1) [x] where
  le := Nat.le_succ n
  given y hy := by
    rw [List.mem_singleton.mp hy, h]
    exact ⟨le_rfl, Nat.lt_succ_self n⟩
  single y hy z hz _ := (List.mem_singleton.mp hy).trans (List.mem_singleton.mp hz).symm

theorem append (h : NewPieces n n' xs) (h' : NewPieces n' n'' ys) :
    NewPieces n n'' (xs ++ ys) where
  le := h.le.trans h'.le
  given x hx := by
    cases List.mem_append.mp hx with
    | inl hx => exact ⟨(h.given x hx).1, (h.given x hx).2.trans_le h'.le⟩
    | inr hx => exact ⟨h.le.trans (h'.given x hx).1, (h'.given x hx).2⟩
  single x hx y hy same := by
    rcases List.mem_append.mp hx with hx | hx <;> rcases List.mem_append.mp hy with hy | hy
    · exact h.single x hx y hy same
    · exact absurd same ((h.given x hx).2.trans_le (h'.given y hy).1).ne
    · exact absurd same ((h.given y hy).2.trans_le (h'.given x hx).1).ne'
    · exact h'.single x hx y hy same

theorem subset (h : NewPieces n n' ys) (hs : xs ⊆ ys) : NewPieces n n' xs :=
  ⟨h.le, fun x hx => h.given x (hs hx), fun x hx y hy => h.single x (hs hx) y (hs hy)⟩

end NewPieces

/-! ## what is made in a workshop -/

namespace Workshop

/-- the pieces that a workshop can give out again -/
def pieces (w : Workshop) : List Piece :=
  w.textures.byPath.map (fun e => .texture e.2) ++ w.buffers.index.map .indices ++
    w.buffers.uv.map .uvs ++ w.tileGrids.flatMap fun e => e.2.gridPieces

theorem piece_of_buffers (w : Workshop) {slot : ObjectId} (h : slot ∈ w.buffers.slots) :
    ∃ x ∈ w.pieces, x.slot = slot := by
  simp only [pieces, List.mem_append]
  rcases List.mem_append.mp h with h | h
  · obtain ⟨b, hb, rfl⟩ := List.mem_map.mp h
    exact ⟨.indices b, .inl (.inl (.inr (List.mem_map_of_mem hb))), rfl⟩
  · obtain ⟨b, hb, rfl⟩ := List.mem_map.mp h
    exact ⟨.uvs b, .inl (.inr (List.mem_map_of_mem hb)), rfl⟩

theorem piece_of_tileGrids (w : Workshop) {slot : ObjectId} (h : slot ∈ w.tileGridSlots) :
    ∃ x ∈ w.pieces, x.slot = slot := by
  obtain ⟨e, he, rfl⟩ := List.mem_map.mp h
  refine ⟨.vertices e.2.id 0 e.2.val.positions.slot, List.mem_append_right _ ?_, rfl⟩
  exact List.mem_flatMap.mpr ⟨e, he, List.mem_cons_self⟩

/-- the pieces `xs` have been made between `w` and `w'`, or were there before -/
def Makes (w w' : Workshop) (xs : List Piece) : Prop :=
  ∃ ys, NewPieces w.supply.next w'.supply.next ys ∧ w'.pieces ++ xs ⊆ w.pieces ++ ys

variable {w w' w'' : Workshop} {site : Site} {xs ys : List Piece}

theorem Makes.refl (w : Workshop) : Makes w w [] := ⟨[], .nil le_rfl, List.Subset.refl _⟩

theorem Makes.trans (h : Makes w w' xs) (h' : Makes w' w'' ys) : Makes w w'' (xs ++ ys) := by
  obtain ⟨new, hnew, hxs⟩ := h
  obtain ⟨new', hnew', hys⟩ := h'
  obtain ⟨before, hxs⟩ := List.append_subset.mp hxs
  obtain ⟨after, hys⟩ := List.append_subset.mp hys
  refine ⟨new ++ new', hnew.append hnew', ?_⟩
  rw [← List.append_assoc w.pieces new new']
  have all : w'.pieces ++ new' ⊆ w.pieces ++ new ++ new' :=
    List.append_subset.mpr ⟨List.subset_append_of_subset_left _ before,
      List.subset_append_right _ _⟩
  exact List.append_subset.mpr ⟨List.Subset.trans after all, List.append_subset.mpr
    ⟨List.subset_append_of_subset_left _ hxs, List.Subset.trans hys all⟩⟩

theorem Makes.le (h : Makes w w' xs) : w.supply.next ≤ w'.supply.next := by
  obtain ⟨ys, new, -⟩ := h
  exact new.le

theorem Makes.old_or_new (h : Makes w w' xs) {x : Piece} (hx : x ∈ w'.pieces ++ xs) :
    x ∈ w.pieces ∨ w.supply.next ≤ x.slot ∧ x.slot < w'.supply.next := by
  obtain ⟨ys, new, all⟩ := h
  exact (List.mem_append.mp (all hx)).imp_right (new.given x)

/-- what is there afterwards counts as made -/
theorem Makes.of_subset (h : Makes w w' xs) (hys : ys ⊆ w'.pieces ++ xs) : Makes w w' ys := by
  obtain ⟨new, hnew, hxs⟩ := h
  have before : w'.pieces ++ ys ⊆ w'.pieces ++ xs :=
    List.append_subset.mpr ⟨List.subset_append_left _ _, hys⟩
  exact ⟨new, hnew, List.Subset.trans before hxs⟩

/-- a grid is remembered -/
theorem Makes.remember (h : Makes w w' xs) (k : TileKey) {g : Shared TileGrid}
    (hg : g.gridPieces ⊆ w'.pieces ++ xs) :
    Makes w { w' with tileGrids := (k, g) :: w'.tileGrids } xs := by
  obtain ⟨new, hnew, hxs⟩ := h
  refine ⟨new, hnew, List.Subset.trans ?_ hxs⟩
  intro x hx
  simp only [pieces, List.flatMap_cons, List.mem_append] at hx
  have known : x ∈ g.gridPieces ∨ x ∈ w'.pieces ++ xs := by
    simp only [pieces, List.mem_append]
    tauto
  exact known.elim (@hg x) id

/-! ## single objects -/

/-- the next identity is the slot of a new piece -/
theorem makes_piece {x : Piece} (hx : x.slot = w.supply.next)
    (hnext : w'.supply.next = w.supply.next + 1) (h : w'.pieces ⊆ x :: w.pieces) :
    Makes w w' [x] := by
  refine ⟨[x], hnext ▸ .one hx, List.append_subset.mpr ⟨?_, List.subset_append_right _ _⟩⟩
  exact List.Subset.trans h (List.cons_subset.mpr
    ⟨List.mem_append_right _ List.mem_cons_self, List.subset_append_left _ _⟩)

theorem makes_found {x : Piece} (h : x ∈ w.pieces) : Makes w w [x] :=
  (Makes.refl w).of_subset (List.cons_subset.mpr ⟨List.mem_append_left _ h, List.nil_subset _⟩)

theorem makes_shared (w : Workshop) (t : Texture) :
    Makes w (w.share t).2 [.texture (w.share t).1] :=
  makes_piece rfl rfl (List.subset_cons_self _ _)

/-- the next identity is not that of a piece -/
theorem makes_name {α : Type} (w : Workshop) (a : α) : Makes w (w.share a).2 [] :=
  ⟨[], .nil (Nat.le_succ _), List.Subset.refl _⟩

theorem makes_vertexArray {α : Type} (w : Workshop) (elements : List α) (owner : ObjectId)
    (part : Nat) :
    Makes w (w.vertexArray elements).2 [.vertices owner part (w.vertexArray elements).1.slot] :=
  makes_piece rfl rfl (List.subset_cons_self _ _)

theorem makes_texture (w : Workshop) (site : Site) (path : String) :
    Makes w (w.texture site path).2 [.texture (w.texture site path).1] := by
  simp only [texture, TextureStock.acquire, TextureStock.make, Supply.share]
  split
  · split
    · next found h =>
      have known := mem_of_lookup h
      refine makes_found ?_
      simp only [pieces, List.mem_append]
      exact .inl (.inl (.inl (List.mem_map_of_mem known)))
    · exact makes_piece rfl rfl (List.Subset.refl _)
  · exact makes_piece rfl rfl (List.Subset.refl _)

theorem makes_indexBuffer (w : Workshop) (n : Nat) (seams : Seams) :
    Makes w (w.indexBuffer n seams).2 [.indices (w.indexBuffer n seams).1] := by
  simp only [indexBuffer, GridBuffers.indexBuffer]
  cases h : w.buffers.findIndex? n seams.edgeBits with
  | some b =>
    have known := List.mem_of_find?_eq_some h
    refine makes_found ?_
    simp [pieces, known]
  | none =>
    refine makes_piece rfl rfl ?_
    intro x hx
    simp only [pieces, List.map_cons, List.mem_append, List.mem_cons] at hx ⊢
    tauto

theorem makes_uvBuffer (w : Workshop) (n : Nat) :
    Makes w (w.uvBuffer n).2 [.uvs (w.uvBuffer n).1] := by
  simp only [uvBuffer, GridBuffers.uvBuffer]
  cases h : w.buffers.findUv? n with
  | some b =>
    have known := List.mem_of_find?_eq_some h
    refine makes_found ?_
    simp [pieces, known]
  | none =>
    refine makes_piece rfl rfl ?_
    intro x hx
    simp only [pieces, List.map_cons, List.mem_append, List.mem_cons] at hx ⊢
    tauto

/-! ## passes -/

section
variable (w : Workshop) (site : Site)

theorem makes_layer (baked : Bool) (spec : LayerSpec) :
    Makes w (w.layer site baked spec).2 (w.layer site baked spec).1.pieces := by
  have diffuse := makes_texture w site spec.diffuse
  unfold layer
  cases spec.normal with
  | none => exact diffuse
  | some path =>
    cases baked with
    | true => exact diffuse
    | false => exact diffuse.trans (makes_texture _ site path)

theorem makes_layers (baked : Bool) (specs : List LayerSpec) :
    Makes w (w.layers site baked specs).2
      ((w.layers site baked specs).1.flatMap Layer.pieces) := by
  induction specs generalizing w with
  | nil => exact .refl w
  | cons spec specs ih => exact (makes_layer w site baked spec).trans (ih _)

theorem makes_blendMaps (images : List GrayImage) :
    Makes w (w.blendMaps images).2 ((w.blendMaps images).1.map .texture) := by
  induction images generalizing w with
  | nil => exact .refl w
  | cons image images ih => exact (makes_shared w (Texture.blendMap image)).trans (ih _)

end

theorem pieces_ofLayer (shaders : Bool) (scale tiling : Float32) (l : Layer) :
    (Pass.ofLayer shaders scale tiling l).pieces ⊆ l.pieces := by
  refine List.cons_subset_cons _ (List.map_subset _ ?_)
  show (if shaders then l.normal else none).toList ++ [] ⊆ l.normal.toList
  rw [List.append_nil]
  cases shaders with
  | true => exact List.Subset.refl _
  | false => exact List.nil_subset _

theorem pieces_overlay {p : Pass} (h : p.blendMap = none) (map : Option (Shared Texture)) :
    (p.overlay map).pieces ⊆ p.pieces ++ map.toList.map .texture := by
  have all : (p.overlay map).pieces = p.pieces ++ map.toList.map .texture := by
    simp only [Pass.pieces, Pass.textures, Pass.overlay, h, Option.toList_none, List.append_nil,
      List.map_cons, List.map_append, List.cons_append]
  rw [all]
  exact List.Subset.refl _

/-- passes sample what the layers have and the blend maps -/
theorem pieces_ofLayers (shaders : Bool) (layers : List Layer) (maps : List (Shared Texture))
    (scale tiling : Float32) :
    (Pass.ofLayers shaders layers maps scale tiling).flatMap Pass.pieces
      ⊆ layers.flatMap Layer.pieces ++ maps.map .texture := by
  intro x hx
  obtain ⟨pass, hpass, hx⟩ := List.mem_flatMap.mp hx
  cases layers with
  | nil => exact absurd hpass List.not_mem_nil
  | cons base overlays =>
    cases List.mem_cons.mp hpass with
    | inl first =>
      subst first
      exact List.mem_append_left _ (List.mem_append_left _ (pieces_ofLayer _ _ _ _ hx))
    | inr later =>
      obtain ⟨i, hi, rfl⟩ := List.mem_mapIdx.mp later
      cases List.mem_append.mp (pieces_overlay rfl _ hx) with
      | inl hx =>
        refine List.mem_append_left _ (List.mem_flatMap.mpr ⟨overlays[i], ?_, ?_⟩)
        · exact List.mem_cons_of_mem _ (List.getElem_mem hi)
        · exact pieces_ofLayer _ _ _ _ hx
      | inr hx =>
        obtain ⟨t, ht, rfl⟩ := List.mem_map.mp hx
        refine List.mem_append_right _ (List.mem_map_of_mem ?_)
        exact List.mem_of_getElem? (Option.mem_toList.mp ht)

theorem makes_passes (w : Workshop) (site : Site) (place : Place) (baked : Bool) :
    Makes w (w.passes site place baked).2
      ((w.passes site place baked).1.flatMap Pass.pieces) := by
  rcases hask : w.requests.askLayers site.source place with ⟨stack, requests⟩
  simp only [passes, hask]
  have made := makes_layers { w with requests } site baked stack.layers
  refine Makes.of_subset (made.trans (makes_blendMaps _ stack.images)) ?_
  exact List.Subset.trans (pieces_ofLayers _ _ _ _ _) (List.subset_append_right _ _)

/-! ## tiles -/

theorem makes_makeTileGrid {cellVertices : Nat} {s : Square Float32} {g : Shared TileGrid}
    (h : w.makeTileGrid cellVertices s = .ok (g, w')) : Makes w w' g.gridPieces := by
  unfold makeTileGrid at h
  split at h
  · cases h
  · next n hn =>
    cases h
    have arrays := makes_vertexArray w (s.bakedGrid n)
    have made (owner : ObjectId) :=
      ((arrays owner 0).trans (makes_uvBuffer _ n)).trans (makes_indexBuffer _ n .none)
    exact Makes.remember ((made _).trans (makes_name _ _)) _ (List.subset_append_right _ _)

theorem makes_tileGrid {cellVertices : Nat} {s : Square Float32} {g : Shared TileGrid}
    (h : w.tileGrid cellVertices s = .ok (g, w')) : Makes w w' g.gridPieces := by
  unfold tileGrid at h
  split at h
  · next hfound =>
    cases h
    refine (Makes.refl w).of_subset fun x hx => ?_
    have known : x ∈ w.tileGrids.flatMap fun e => e.2.gridPieces :=
      List.mem_flatMap.mpr ⟨(.ofSquare s, g), mem_of_lookup hfound, hx⟩
    exact List.mem_append_left _ (List.mem_append_right _ known)
  · exact makes_makeTileGrid h

theorem makes_tile {s : Square Float32} {t : Tile} (h : w.tile site s = .ok (t, w'))
    (owner : ObjectId) (place : Nat) : Makes w w' (drawPieces owner place t.draws) := by
  obtain ⟨g, w₁, colors, w₂, w₃, hg, -, e₂, e₃, rfl, rfl⟩ := tile_eq_ok h
  have asked : Makes w₁ w₂ [] := by
    rw [e₂]
    exact .refl w₁
  have passes := makes_passes w₂ site (site.place s.size s.center) true
  rw [← e₃] at passes
  rw [drawPieces_append, drawPieces_layers]
  generalize place + List.length _ = part
  have made := ((makes_tileGrid hg).trans asked).trans passes
  refine (made.trans (makes_vertexArray w₃ colors owner part)).of_subset ?_
  intro x hx
  simp only [drawPieces, Draw.pieces, List.mem_append, List.mem_cons] at hx ⊢
  tauto

theorem makes_tiles {ss : List (Square Float32)} {ts : List Tile}
    (h : w.tiles site ss = .ok (ts, w')) (owner : ObjectId) (place : Nat) :
    Makes w w' (drawPieces owner place (ts.flatMap (·.draws))) := by
  induction ss generalizing w ts place with
  | nil =>
    cases h
    exact .refl _
  | cons s ss ih =>
    obtain ⟨t, w₁, rest, ht, hrest, rfl⟩ := tiles_cons_eq_ok h
    rw [List.flatMap_cons, drawPieces_append]
    exact (makes_tile ht owner place).trans (ih hrest _)

/-- a composite is made of its target and the pieces of its draws -/
theorem makes_composite {maxTileSize size : Float32} {center : Point2 Float32}
    {target : Shared Texture} {c : Composite}
    (h : w.composite site maxTileSize size center target = .ok (c, w')) :
    c.target = target ∧ ∀ owner, Makes w w' (drawPieces owner 0 c.draws) := by
  obtain ⟨leaves, -, h⟩ := Fault.bind_eq_ok.mp h
  obtain ⟨⟨tiles, w₁⟩, htiles, h⟩ := Fault.bind_eq_ok.mp h
  cases h
  exact ⟨rfl, fun owner => makes_tiles htiles owner 0⟩

end Workshop

end TerrainPatches
