import TerrainPatches.Proofs.Workshop.Planned
import TerrainPatches.Source.Flat

/-!
# How a stack of layers is drawn

A pass is known by its layer, by its place in the stack and by whether shaders are used
(`getElem?_ofLayers`).  Whether they are is decided once for the whole stack, by the lighting and by
every layer of it, so the pass of a layer loses nothing the layer asks for, wherever in the stack
the layer stands that brings the shaders in.  What is baked is drawn plainly instead.

The textures of the layers are those at the paths the layers name, asked for in order
(`layers_eq`); the normal maps of what is baked are not asked for.  The blend maps are made from the
images of the stack, one for each, whether or not there is a layer to weight with it
(`blendMaps_eq`).
-/

namespace TerrainPatches

/-! ## layers and their textures -/

/-- the paths a layer asks the scene for; what is baked does without its normal map -/
def LayerSpec.paths (baked : Bool) (spec : LayerSpec) : List String :=
  spec.diffuse :: if baked then [] else spec.normal.toList

/-- the textures of a layer itself, without the map that weights it -/
def Layer.surface (l : Layer) : List (Shared Texture) := l.diffuse :: l.normal.toList

/-- the layer has what its specification names; what is baked has no normal map -/
structure LayerSpec.Describes (baked : Bool) (spec : LayerSpec) (l : Layer) : Prop where
  normal : l.normal.isSome = (!baked && spec.normal.isSome)
  parallax : l.parallax = spec.parallax
  specular : l.specular = spec.specular

/-- what stands at the place of a layer describes it -/
theorem LayerSpec.Describes.at_place {baked : Bool} {specs : List LayerSpec} {layers : List Layer}
    (h : List.Forall₂ (LayerSpec.Describes baked) specs layers) {i : Nat} {l : Layer}
    (hl : layers[i]? = some l) : ∃ spec, specs[i]? = some spec ∧ spec.Describes baked l := by
  obtain ⟨hi, rfl⟩ := List.getElem?_eq_some_iff.mp hl
  have hi' : i < specs.length := h.length_eq ▸ hi
  exact ⟨specs[i], List.getElem?_eq_getElem hi', h.get hi' hi⟩

namespace Workshop

variable (w : Workshop) (site : Site) (baked : Bool)

/-- the textures at some paths, asked for one after the other -/
def texturesAt (w : Workshop) (site : Site) : List String → List (Shared Texture) × Workshop
  | [] => ([], w)
  | path :: paths =>
    let (first, w) := w.texture site path
    let (rest, w) := w.texturesAt site paths
    (first :: rest, w)

theorem texturesAt_append (paths more : List String) : w.texturesAt site (paths ++ more)
    = ((w.texturesAt site paths).1 ++ ((w.texturesAt site paths).2.texturesAt site more).1,
      ((w.texturesAt site paths).2.texturesAt site more).2) := by
  induction paths generalizing w with
  | nil => rfl
  | cons path paths ih => simp only [List.cons_append, texturesAt, ih]

/-- the questions asked of the source make no difference to the textures -/
theorem texturesAt_ask (requests : Requests) (paths : List String) :
    { w with requests }.texturesAt site paths
      = ((w.texturesAt site paths).1, { (w.texturesAt site paths).2 with requests }) := by
  induction paths generalizing w with
  | nil => rfl
  | cons path paths ih =>
    have rest := ih (w.texture site path).2
    show (_ :: ({ (w.texture site path).2 with requests }.texturesAt site paths).1, _) = _
    rw [rest]
    exact congrArg (Prod.mk _) (congrArg Prod.snd rest)

variable {site} in
/-- they are the textures that the scene has there -/
theorem Sound.map_texturesAt {w : Workshop} (h : w.Sound site) (paths : List String) :
    (w.texturesAt site paths).1.map (·.val) = paths.map site.scene.texture := by
  induction paths generalizing w with
  | nil => rfl
  | cons path paths ih =>
    have first : (w.texture site path).1.val = site.scene.texture path :=
      congrArg Shared.val (bare_texture h path)
    have after : (w.texture site path).2.Sound site := (Step.texture path).sound h
    simp only [texturesAt, List.map_cons, first, ih after]

theorem layer_eq (spec : LayerSpec) :
    (w.layer site baked spec).1.surface = (w.texturesAt site (spec.paths baked)).1 ∧
      (w.layer site baked spec).2 = (w.texturesAt site (spec.paths baked)).2 ∧
      spec.Describes baked (w.layer site baked spec).1 := by
  obtain ⟨diffuse, normal, parallax, specular⟩ := spec
  cases normal with
  | none => cases baked <;> exact ⟨rfl, rfl, rfl, rfl, rfl⟩
  | some path => cases baked <;> exact ⟨rfl, rfl, rfl, rfl, rfl⟩

theorem layers_eq (specs : List LayerSpec) :
    (w.layers site baked specs).1.flatMap Layer.surface
        = (w.texturesAt site (specs.flatMap (LayerSpec.paths baked))).1 ∧
      (w.layers site baked specs).2
        = (w.texturesAt site (specs.flatMap (LayerSpec.paths baked))).2 ∧
      List.Forall₂ (LayerSpec.Describes baked) specs (w.layers site baked specs).1 := by
  induction specs generalizing w with
  | nil => exact ⟨rfl, rfl, .nil⟩
  | cons spec specs ih =>
    obtain ⟨surface, after, describes⟩ := w.layer_eq site baked spec
    obtain ⟨surfaces, afters, rest⟩ := ih (w.layer site baked spec).2
    rw [List.flatMap_cons, texturesAt_append, ← after, ← surface, ← surfaces, ← afters]
    exact ⟨rfl, rfl, .cons describes rest⟩

/-- each image becomes a texture of its own -/
theorem blendMaps_eq (images : List GrayImage) : w.blendMaps images
    = (images.mapIdx fun i image => ⟨w.supply.next + i, .blendMap image⟩,
      { w with supply := ⟨w.supply.next + images.length⟩ }) := by
  induction images generalizing w with
  | nil => rfl
  | cons image images ih =>
    have shift (i : Nat) : w.supply.next + 1 + i = w.supply.next + (i + 1) :=
      Nat.add_right_comm _ 1 i
    simp only [blendMaps, share, ih, List.mapIdx_cons, List.length_cons, Supply.share, shift,
      Nat.add_zero]

theorem map_val_blendMaps (images : List GrayImage) :
    (w.blendMaps images).1.map (·.val) = images.map Texture.blendMap := by
  refine List.ext_getElem? fun i => ?_
  simp only [blendMaps_eq, List.getElem?_map, List.getElem?_mapIdx, Option.map_map]
  rfl

theorem nodup_blendMaps (images : List GrayImage) :
    ((w.blendMaps images).1.map (·.id)).Nodup := by
  have ids : (w.blendMaps images).1.map (·.id)
      = (List.range images.length).map (w.supply.next + ·) := by
    refine List.ext_getElem (by simp [blendMaps_eq]) fun i _ _ => ?_
    simp [blendMaps_eq]
  rw [ids]
  exact List.nodup_range.map fun _ _ => Nat.add_left_cancel

end Workshop

/-! ## what a pass keeps of its layer -/

namespace Pass

/-- the textures of the layer that a pass draws -/
def surface (p : Pass) : List (Shared Texture) := p.diffuse :: p.normal.toList

/-- what needs shaders is missing, and so are the shaders -/
structure Plain (p : Pass) : Prop where
  shaders : p.shaders = false
  normal : p.normal = none
  parallax : p.parallax = false
  specular : p.specular = false

/-- the pass is drawn as is due at its place: the first lays down depth and is opaque, a later one
is weighted over the passes before it, by its map if there is one -/
def Stands (blendMaps : List (Shared Texture)) : Nat → Pass → Prop
  | 0, p => p.depthWrite = true ∧ p.depth = .lessEqual ∧ p.blend = none ∧ p.blendMap = none
  | i + 1, p => p.depthWrite = false ∧ p.depth = .equal ∧ p.blend = some .alpha ∧
      p.blendMap = blendMaps[i]?

section
variable (shaders : Bool) (layers : List Layer) (blendMaps : List (Shared Texture))
  (scale tiling : Float32) (l : Layer) (i : Nat)

/-- the pass of a layer, by its place in the stack -/
def nth : Nat → Pass
  | 0 => ofLayer shaders scale tiling l
  | i + 1 => (ofLayer shaders scale tiling l).overlay blendMaps[i]?

theorem getElem?_ofLayers : (ofLayers shaders layers blendMaps scale tiling)[i]?
    = layers[i]?.map fun l => nth shaders blendMaps scale tiling l i := by
  cases layers with
  | nil => rfl
  | cons base overlays =>
    cases i with
    | zero => rfl
    | succ i =>
      simp only [ofLayers, List.getElem?_cons_succ, List.getElem?_mapIdx]
      rfl

theorem stands_nth : (nth shaders blendMaps scale tiling l i).Stands blendMaps i := by
  cases i with
  | zero => exact ⟨rfl, rfl, rfl, rfl⟩
  | succ i => exact ⟨rfl, rfl, rfl, rfl⟩

theorem diffuse_nth : (nth shaders blendMaps scale tiling l i).diffuse = l.diffuse := by
  cases i <;> rfl

theorem shaders_nth : (nth shaders blendMaps scale tiling l i).shaders = shaders := by
  cases i <;> rfl

theorem normal_nth : (nth shaders blendMaps scale tiling l i).normal
    = if shaders then l.normal else none := by
  cases i <;> rfl

theorem parallax_nth :
    (nth shaders blendMaps scale tiling l i).parallax = (shaders && l.parallax) := by
  cases i <;> rfl

theorem specular_nth :
    (nth shaders blendMaps scale tiling l i).specular = (shaders && l.specular) := by
  cases i <;> rfl

theorem plain_nth : (nth false blendMaps scale tiling l i).Plain where
  shaders := shaders_nth ..
  normal := normal_nth ..
  parallax := parallax_nth ..
  specular := specular_nth ..

end

/-- the layers lose no texture in their passes if each of them has shaders or no normal map -/
theorem surfaces_ofLayers {shaders : Bool} {layers : List Layer}
    (kept : ∀ l ∈ layers, shaders = true ∨ l.normal = none) (blendMaps : List (Shared Texture))
    (scale tiling : Float32) :
    (ofLayers shaders layers blendMaps scale tiling).flatMap surface
      = layers.flatMap Layer.surface := by
  have each : (ofLayers shaders layers blendMaps scale tiling).map surface
      = layers.map Layer.surface := by
    refine List.ext_getElem? fun i => ?_
    rw [List.getElem?_map, List.getElem?_map, getElem?_ofLayers, Option.map_map]
    refine Option.map_congr fun l hl => ?_
    show (nth ..).diffuse :: (nth ..).normal.toList = _
    rw [diffuse_nth, normal_nth]
    obtain rfl | normal := kept l (List.mem_of_getElem? hl)
    · rfl
    · rw [normal, ite_self, Layer.surface, normal]
  rw [List.flatMap_def, each, ← List.flatMap_def]

end Pass

/-- the pass has all that the layer names -/
structure LayerSpec.DrawnBy (spec : LayerSpec) (p : Pass) : Prop where
  normal : p.normal.isSome = spec.normal.isSome
  parallax : p.parallax = spec.parallax
  specular : p.specular = spec.specular

theorem LayerSpec.needsShaders_eq_false {spec : LayerSpec} (h : spec.needsShaders = false) :
    spec.normal.isSome = false ∧ spec.parallax = false ∧ spec.specular = false := by
  simpa only [needsShaders, Bool.or_eq_false_iff, and_assoc] using h

/-- a layer has shaders if it has a normal map to be drawn -/
theorem LayerSpec.Describes.shaded_or_bare {baked shaders : Bool} {spec : LayerSpec} {l : Layer}
    (h : spec.Describes baked l)
    (needed : baked = false → spec.needsShaders = true → shaders = true) :
    shaders = true ∨ l.normal = none := by
  refine or_iff_not_imp_left.mpr fun unshaded => ?_
  refine Option.isNone_iff_eq_none.mp (Option.isSome_eq_false_iff.mp ?_)
  rw [h.normal]
  cases baked with
  | true => rfl
  | false =>
    have unneeded := Bool.eq_false_iff.mpr fun h => unshaded (needed rfl h)
    exact (needsShaders_eq_false unneeded).1

/-- with shaders all of a layer is drawn, and without them too if the layer does not need them -/
theorem LayerSpec.Describes.drawnBy {shaders : Bool} {spec : LayerSpec} {l : Layer}
    (h : spec.Describes false l) (needed : spec.needsShaders = true → shaders = true)
    (blendMaps : List (Shared Texture)) (scale tiling : Float32) (i : Nat) :
    spec.DrawnBy (Pass.nth shaders blendMaps scale tiling l i) := by
  obtain ⟨normal, parallax, specular⟩ := h
  rw [Bool.not_false, Bool.true_and] at normal
  cases shaders with
  | true =>
    refine ⟨?_, ?_, ?_⟩
    · rw [Pass.normal_nth, if_pos rfl, normal]
    · rw [Pass.parallax_nth, Bool.true_and, parallax]
    · rw [Pass.specular_nth, Bool.true_and, specular]
  | false =>
    have unneeded := Bool.eq_false_iff.mpr fun h => Bool.false_ne_true (needed h)
    obtain ⟨noNormal, noParallax, noSpecular⟩ := needsShaders_eq_false unneeded
    refine ⟨?_, ?_, ?_⟩
    · rw [noNormal, Pass.normal_nth]
      rfl
    · rw [noParallax, Pass.parallax_nth, Bool.false_and]
    · rw [noSpecular, Pass.specular_nth, Bool.false_and]

/-! ## the passes of a place -/

/-- what the source says about the layers of a place -/
def Site.stack (site : Site) (place : Place) : LayerStack := site.source.layers place

namespace Workshop

variable (w : Workshop) (site : Site) (place : Place) (baked : Bool)

theorem usesShaders_iff {scene : Scene} {specs : List LayerSpec} :
    usesShaders scene specs baked = true ↔ baked = false ∧ (scene.forceShaders = true ∨
      scene.clampLighting = false ∨ ∃ spec ∈ specs, spec.needsShaders = true) := by
  simp only [usesShaders, Scene.needsShaders, Bool.and_eq_true, Bool.or_eq_true, Bool.not_eq_true',
    List.any_eq_true, or_assoc]

/-- the textures that the stack of a place asks for, and the workshop after that -/
def stackTextures : List (Shared Texture) × Workshop :=
  w.texturesAt site ((site.stack place).layers.flatMap (LayerSpec.paths baked))

/-- the passes are those of layers that have what the stack names, with the textures that it asks
for and a new blend map for each image -/
theorem passes_eq : ∃ (passes : List Pass) (w' : Workshop) (layers : List Layer)
    (maps : List (Shared Texture)), w.passes site place baked = (passes, w') ∧
    passes = Pass.ofLayers (usesShaders site.scene (site.stack place).layers baked) layers maps
      (site.source.tiling place.size) (site.source.tiling place.size) ∧
    List.Forall₂ (LayerSpec.Describes baked) (site.stack place).layers layers ∧
    maps.map (·.val) = (site.stack place).images.map Texture.blendMap ∧
    (maps.map (·.id)).Nodup ∧
    layers.flatMap Layer.surface = (w.stackTextures site place baked).1 ∧
    w'.textures = (w.stackTextures site place baked).2.textures := by
  let asked : Workshop := { w with requests := (w.requests.askLayers site.source place).2 }
  obtain ⟨surfaces, after, described⟩ := asked.layers_eq site baked (site.stack place).layers
  rw [texturesAt_ask] at surfaces after
  let layered := (asked.layers site baked (site.stack place).layers).2
  refine ⟨_, _, (asked.layers site baked (site.stack place).layers).1,
    (layered.blendMaps (site.stack place).images).1, rfl, rfl, described, map_val_blendMaps ..,
    nodup_blendMaps .., surfaces, ?_⟩
  show (layered.blendMaps (site.stack place).images).2.textures = _
  rw [blendMaps_eq, show layered = _ from after]
  rfl

/-- **How the stack of a place is drawn**: one pass for each layer, in order, each as is due at its
place.  What is not baked has shaders in all its passes or in none, and in all of them if any layer
needs them, so that no pass is short of what its layer names.  What is baked is plain, and its
normal maps are not even asked for. -/
theorem passes_of_stack : ∃ passes w', w.passes site place baked = (passes, w') ∧
    passes.length = (site.stack place).layers.length ∧
    (baked = true → ∀ p ∈ passes, p.Plain) ∧
    (baked = false → ∀ (i : Nat) spec p, (site.stack place).layers[i]? = some spec →
      passes[i]? = some p → spec.DrawnBy p ∧
        (p.shaders = true ↔ site.scene.forceShaders = true ∨ site.scene.clampLighting = false ∨
          ∃ s ∈ (site.stack place).layers, s.needsShaders = true)) ∧
    (∃ maps : List (Shared Texture),
      maps.map (·.val) = (site.stack place).images.map Texture.blendMap ∧
      (maps.map (·.id)).Nodup ∧ ∀ (i : Nat) p, passes[i]? = some p → p.Stands maps i) ∧
    passes.flatMap Pass.surface = (w.stackTextures site place baked).1 ∧
    w'.textures = (w.stackTextures site place baked).2.textures ∧
    (w.Sound site → (w.stackTextures site place baked).1.map (·.val)
      = ((site.stack place).layers.flatMap (LayerSpec.paths baked)).map site.scene.texture) := by
  obtain ⟨passes, w', layers, maps, made, drawn, described, values, distinct, surfaces, textures⟩ :=
    w.passes_eq site place baked
  let shaders := usesShaders site.scene (site.stack place).layers baked
  let scale := site.source.tiling place.size
  have known (i : Nat) (p : Pass) (hp : passes[i]? = some p) :
      ∃ l, layers[i]? = some l ∧ Pass.nth shaders maps scale scale l i = p := by
    rw [drawn, Pass.getElem?_ofLayers] at hp
    exact Option.map_eq_some_iff.mp hp
  have needed (spec : LayerSpec) (hspec : spec ∈ (site.stack place).layers)
      (fresh : baked = false) (h : spec.needsShaders = true) : shaders = true :=
    (usesShaders_iff baked).mpr ⟨fresh, .inr (.inr ⟨spec, hspec, h⟩)⟩
  have bare (l : Layer) (hl : l ∈ layers) : shaders = true ∨ l.normal = none := by
    obtain ⟨i, hi⟩ := List.mem_iff_getElem?.mp hl
    obtain ⟨spec, hspec, describes⟩ := LayerSpec.Describes.at_place described hi
    exact describes.shaded_or_bare (needed spec (List.mem_of_getElem? hspec))
  refine ⟨passes, w', made, ?_, ?_, ?_, ⟨maps, values, distinct, ?_⟩, ?_, textures,
    fun h => h.map_texturesAt _⟩
  · rw [drawn, Pass.length_ofLayers, described.length_eq]
  · rintro rfl p hp
    obtain ⟨i, hi⟩ := List.mem_iff_getElem?.mp hp
    obtain ⟨l, -, rfl⟩ := known i p hi
    exact Pass.plain_nth ..
  · rintro rfl i spec p hspec hp
    obtain ⟨l, hl, rfl⟩ := known i p hp
    obtain ⟨spec', hspec', describes⟩ := LayerSpec.Describes.at_place described hl
    obtain rfl : spec' = spec := Option.some.inj (hspec'.symm.trans hspec)
    refine ⟨describes.drawnBy (needed spec' (List.mem_of_getElem? hspec) rfl) .., ?_⟩
    rw [Pass.shaders_nth, usesShaders_iff]
    exact and_iff_right rfl
  · intro i p hp
    obtain ⟨l, -, rfl⟩ := known i p hp
    exact Pass.stands_nth ..
  · rw [drawn, Pass.surfaces_ofLayers bare, surfaces]

/-- a site with three layers everywhere, of which the last alone needs shaders, and one image -/
def rocky : Site :=
  ⟨{ FlatTerrain.standard.source with
      layers := fun _ => ⟨[⟨"sand", none, false, false⟩, ⟨"grass", none, false, false⟩,
        ⟨"rock", some "rock_n", false, true⟩], [⟨1, 1, [128]⟩]⟩ },
    ⟨false, true, Scene.blankTexture, true, false⟩, 0⟩

/-- the rock brings the shaders in for the sand, and there is no image to weight it; baked, nothing
has shaders -/
theorem passes_of_rock : ∃ passes baked w₁ w₂,
    initial.passes rocky ⟨Scalar.one, ⟨Scalar.zero, Scalar.zero⟩, 0⟩ false = (passes, w₁) ∧
    passes.length = 3 ∧ (∀ p, passes[0]? = some p → p.shaders = true ∧ p.normal.isSome = false) ∧
    (∀ p, passes[2]? = some p → p.normal.isSome = true ∧ p.specular = true ∧ p.blendMap = none) ∧
    initial.passes rocky ⟨Scalar.one, ⟨Scalar.zero, Scalar.zero⟩, 0⟩ true = (baked, w₂) ∧
    baked.length = 3 ∧ ∀ p ∈ baked, p.Plain := by
  obtain ⟨passes, w₁, made, length, -, drawn, ⟨maps, values, -, stands⟩, -⟩ :=
    initial.passes_of_stack rocky ⟨Scalar.one, ⟨Scalar.zero, Scalar.zero⟩, 0⟩ false
  obtain ⟨baked, w₂, made', length', plain, -⟩ :=
    initial.passes_of_stack rocky ⟨Scalar.one, ⟨Scalar.zero, Scalar.zero⟩, 0⟩ true
  refine ⟨passes, baked, w₁, w₂, made, length, fun p hp => ?_, fun p hp => ?_, made', length',
    plain rfl⟩
  · obtain ⟨⟨normal, -, -⟩, shaders⟩ := drawn rfl 0 _ p rfl hp
    have rock : (rocky.stack ⟨Scalar.one, ⟨Scalar.zero, Scalar.zero⟩, 0⟩).layers.any
        LayerSpec.needsShaders = true := rfl
    exact ⟨shaders.mpr (.inr (.inr (List.any_eq_true.mp rock))), normal⟩
  · obtain ⟨⟨normal, -, specular⟩, -⟩ := drawn rfl 2 _ p rfl hp
    obtain ⟨-, -, -, weight⟩ := stands 2 p hp
    have one : maps.length = 1 := by
      rw [← List.length_map (fun m : Shared Texture => m.val), values]
      rfl
    exact ⟨normal, specular, weight.trans (List.getElem?_eq_none one.le)⟩

end Workshop

end TerrainPatches
