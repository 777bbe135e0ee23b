import TerrainPatches.Texture

/-!
# Passes: how the layers of a terrain are drawn

A terrain is painted in layers, bottom to top.  `Pass.ofLayers` gives one pass per layer: the
first lays down depth and is opaque; every later one touches only what lies at exactly the depth
already written and is weighted over the passes before it by its blend map.  Blend maps are
counted from the second layer on, and a layer without one is drawn unweighted.

Normal maps, parallax and specular need shaders; without them they are dropped.
-/

namespace TerrainPatches

/-- one texture layer, with its textures at hand -/
structure Layer where
  diffuse : Shared Texture
  normal : Option (Shared Texture)
  parallax : Bool
  specular : Bool

/-- a layer of one texture and nothing else -/
def Layer.plain (diffuse : Shared Texture) : Layer := ⟨diffuse, none, false, false⟩

inductive BlendFactor where
  | zero
  | one
  | srcColor
  | srcAlpha
  | oneMinusSrcAlpha
deriving DecidableEq

/-- `source` times what is drawn plus `destination` times what is there -/
structure Blend where
  source : BlendFactor
  destination : BlendFactor
deriving DecidableEq

namespace Blend

/-- weighted by the alpha of what is drawn -/
def alpha : Blend := ⟨.srcAlpha, .oneMinusSrcAlpha⟩

/-- tints what is there by the color of what is drawn -/
def multiply : Blend := ⟨.zero, .srcColor⟩

end Blend

inductive DepthTest where
  | lessEqual
  | equal
deriving DecidableEq

structure Pass where
  diffuse : Shared Texture
  normal : Option (Shared Texture)
  /-- weights this layer over the passes before it -/
  blendMap : Option (Shared Texture)
  shaders : Bool
  parallax : Bool
  specular : Bool
  /-- how often the layer texture repeats across the patch -/
  tiling : Float32
  blendMapScale : Float32
  depth : DepthTest
  depthWrite : Bool
  blend : Option Blend

namespace Pass

/-- the textures a pass samples: diffuse, normal, blend map -/
def textures (p : Pass) : List (Shared Texture) :=
  p.diffuse :: (p.normal.toList ++ p.blendMap.toList)

theorem mem_textures {p : Pass} {t : Shared Texture} :
    t ∈ p.textures ↔ t = p.diffuse ∨ p.normal = some t ∨ p.blendMap = some t := by
  rw [textures, List.mem_cons, List.mem_append, Option.mem_toList, Option.mem_toList]

/-- what is drawn of a layer, before its place among the passes is known -/
def ofLayer (shaders : Bool) (scale tiling : Float32) (l : Layer) : Pass where
  diffuse := l.diffuse
  normal := if shaders then l.normal else none
  blendMap := none
  shaders := shaders
  parallax := shaders && l.parallax
  specular := shaders && l.specular
  tiling := tiling
  blendMapScale := scale
  depth := .lessEqual
  depthWrite := true
  blend := none

/-- the pass drawn over the passes before it, weighted by its blend map -/
def overlay (blendMap : Option (Shared Texture)) (p : Pass) : Pass :=
  { p with blendMap, depth := .equal, depthWrite := false, blend := some .alpha }

/-- one pass per layer, bottom to top -/
def ofLayers (shaders : Bool) (layers : List Layer) (blendMaps : List (Shared Texture))
    (scale tiling : Float32) : List Pass :=
  match layers with
  | [] => []
  | base :: overlays => ofLayer shaders scale tiling base ::
      overlays.mapIdx fun i l => (ofLayer shaders scale tiling l).overlay blendMaps[i]?

theorem length_ofLayers (shaders : Bool) (layers : List Layer) (blendMaps : List (Shared Texture))
    (scale tiling : Float32) :
    (ofLayers shaders layers blendMaps scale tiling).length = layers.length := by
  cases layers with
  | nil => rfl
  | cons base overlays => simp [ofLayers]

end Pass

end TerrainPatches
