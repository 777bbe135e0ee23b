import TerrainPatches.Landscape
import TerrainPatches.Proofs.Quadtree.Spans
import TerrainPatches.Source.Flat

/-!
# Setting a landscape up

Settings are refused for the first of five demands that is not met (`Settings.complaint?`).  The last
one, that an interval of a cell fits into the greatest tile, is asked through the resolution of that
tile, and the resolution is a fault itself if it is too large for a count.  So settings that meet
every demand give a landscape only if the greatest tile has less than `countLimit` intervals
(`create_iff`).  An infinite one has more (`no_landscape_of_large_tile`).
-/

namespace TerrainPatches

namespace Settings

/-- what the settings are asked for, in this order, each with the error if it is not so -/
def demands (s : Settings) (cellVertices : Nat) : List (Bool × SettingError) :=
  [(decide (Scalar.zero < s.maxTileSize), .tileSizeNotPositive s.maxTileSize),
    (decide (Scalar.zero < s.bakedFrom), .bakedFromNotPositive s.bakedFrom),
    (decide (s.textureSize ≠ 0), .textureSizeZero),
    (decide (2 ≤ cellVertices), .tooFewCellVertices cellVertices),
    (decide (Scalar.one ≤ Scalar.ofNat (cellVertices - 1) * s.maxTileSize),
      .tileBelowOneInterval s.maxTileSize cellVertices)]

/-- the error of the first demand that is not met -/
def complaint? (s : Settings) (cellVertices : Nat) : Option SettingError :=
  ((s.demands cellVertices).find? fun d => !d.1).map (·.2)

/-- the greatest tile has no more intervals along an edge than can be counted with its vertices -/
def Countable (s : Settings) (cellVertices : Nat) : Prop :=
  Scalar.ofNat (cellVertices - 1) * s.maxTileSize < Scalar.ofNat countLimit

instance (s : Settings) (cellVertices : Nat) : Decidable (s.Countable cellVertices) :=
  inferInstanceAs (Decidable (_ < _))

/-- what the settings come to -/
def verdict (s : Settings) (cellVertices : Nat) : Except SetupError Unit :=
  match s.complaint? cellVertices with
  | some e => .error (.setting e)
  | none => if s.Countable cellVertices then .ok () else .error (.fault .resolutionOverflow)

variable {s : Settings} {cellVertices : Nat}

/-- the check against a cell, by the intervals of the greatest tile -/
theorem checkCell_eq (h : 2 ≤ cellVertices) : s.checkCell cellVertices =
    if Scalar.one ≤ Scalar.ofNat (cellVertices - 1) * s.maxTileSize then
      if s.Countable cellVertices then .ok () else .error (.fault .resolutionOverflow)
    else .error (.setting (.tileBelowOneInterval s.maxTileSize cellVertices)) := by
  have several : ¬ cellVertices < 2 := by omega
  rw [checkCell, if_neg several, resolution, if_neg several, intervals_zero]
  by_cases hone : Scalar.one ≤ Scalar.ofNat (cellVertices - 1) * s.maxTileSize
  · have two : 1 ≤ Scalar.toNat (Scalar.ofNat (cellVertices - 1) * s.maxTileSize) :=
      (one_le_toNat_iff _).mpr hone
    rw [if_pos hone]
    by_cases hcount : s.Countable cellVertices
    · rw [if_pos ((toNat_succ_lt_iff hone).mpr hcount), if_pos hcount]
      exact if_neg (by omega)
    · rw [if_neg (mt (toNat_succ_lt_iff hone).mp hcount), if_neg hcount]
  · have none : Scalar.toNat (Scalar.ofNat (cellVertices - 1) * s.maxTileSize) = 0 := by
      have := mt (one_le_toNat_iff _).mp hone
      omega
    rw [if_neg hone, none]
    rfl

/-- **The checks refuse settings for the first demand that is not met.** -/
theorem verdict_of_checks : (match s.check with
    | .error e => .error (.setting e)
    | .ok () => s.checkCell cellVertices) = s.verdict cellVertices := by
  unfold verdict complaint? demands
  by_cases htile : Scalar.zero < s.maxTileSize
  · by_cases hbaked : Scalar.zero < s.bakedFrom
    · by_cases htexture : s.textureSize = 0
      · simp [check, checkTileSize, htile, hbaked, htexture, bind, Except.bind, throw, throwThe,
          MonadExceptOf.throw]
      · have checked : s.check = .ok () := by
          simp [check, checkTileSize, htile, hbaked, htexture, bind, Except.bind, pure, Except.pure]
        rw [checked]
        by_cases hcell : 2 ≤ cellVertices
        · show s.checkCell cellVertices = _
          rw [checkCell_eq hcell]
          by_cases hone : Scalar.one ≤ Scalar.ofNat (cellVertices - 1) * s.maxTileSize <;>
            simp [htile, hbaked, htexture, hcell, hone]
        · show s.checkCell cellVertices = _
          rw [checkCell, if_pos (by omega)]
          simp [htile, hbaked, htexture, hcell]
    · simp [check, checkTileSize, htile, hbaked, bind, Except.bind, throw, throwThe,
        MonadExceptOf.throw]
  · simp [check, checkTileSize, htile, bind, Except.bind]

end Settings

namespace Landscape

variable {source : Source} {scene : Scene} {queue : BakeQueue} {settings : Settings}

/-- a landscape is made if the checks find nothing -/
theorem map_create : (create source scene queue settings).map (fun _ => ())
    = settings.verdict (source.cellVertices settings.world) := by
  rw [← Settings.verdict_of_checks]
  unfold create
  cases settings.check with
  | error e => rfl
  | ok u =>
    cases hcell : settings.checkCell (source.cellVertices settings.world) with
    | error e =>
      have hcell' : settings.checkCell (Site.mk source scene settings.world).cellVertices
          = .error e := hcell
      simp only [hcell']
      rfl
    | ok u =>
      have hcell' : settings.checkCell (Site.mk source scene settings.world).cellVertices
          = .ok u := hcell
      simp only [hcell']
      rfl

theorem create_eq_error_iff {e : SetupError} : create source scene queue settings = .error e ↔
    settings.verdict (source.cellVertices settings.world) = .error e := by
  rw [← map_create]
  cases create source scene queue settings with
  | error e' =>
    show Except.error e' = Except.error e ↔ Except.error e' = Except.error e
    rw [Except.error.injEq, Except.error.injEq]
  | ok l => exact iff_of_false (fun h => by cases h) (fun h => by cases h)

theorem exists_create_iff : (∃ l, create source scene queue settings = .ok l) ↔
    settings.verdict (source.cellVertices settings.world) = .ok () := by
  rw [← map_create]
  cases create source scene queue settings with
  | error e => exact iff_of_false (fun ⟨l, h⟩ => by cases h) (fun h => by cases h)
  | ok l => exact iff_of_true ⟨l, rfl⟩ rfl

/-- **What settings come to.**  They are refused with the error of the first demand that is not met.
If all are met, there is a landscape as long as the vertices of the greatest tile can be counted; if
they cannot, its resolution is a fault, and there is no other fault. -/
theorem create_iff (source : Source) (scene : Scene) (queue : BakeQueue) (settings : Settings) :
    (∀ e, create source scene queue settings = .error (.setting e) ↔
      settings.complaint? (source.cellVertices settings.world) = some e) ∧
    ((∃ l, create source scene queue settings = .ok l) ↔
      settings.complaint? (source.cellVertices settings.world) = none ∧
        settings.Countable (source.cellVertices settings.world)) ∧
    ∀ f, create source scene queue settings = .error (.fault f) ↔
      f = .resolutionOverflow ∧
        settings.complaint? (source.cellVertices settings.world) = none ∧
          ¬ settings.Countable (source.cellVertices settings.world) := by
  simp only [create_eq_error_iff, exists_create_iff, Settings.verdict]
  cases settings.complaint? (source.cellVertices settings.world) with
  | some e => simp
  | none =>
    by_cases h : settings.Countable (source.cellVertices settings.world)
    · simp [h]
    · simp [h, eq_comm]

/-- **A tile too large to be counted.**  A cell has four intervals, and the greatest tile is infinite,
or has just as many intervals as there are counts.  It meets every demand, and there is a fault. -/
theorem no_landscape_of_large_tile :
    { Settings.standard with maxTileSize := Scalar.one / Scalar.zero }.complaint? 5 = none ∧
    create FlatTerrain.standard.source ⟨false, true, Scene.blankTexture, false, true⟩
      ⟨[], [], 2, 0⟩ { Settings.standard with maxTileSize := Scalar.one / Scalar.zero }
        = .error (.fault .resolutionOverflow) ∧
    { Settings.standard with maxTileSize := Scalar.twoPow 30 }.complaint? 5 = none ∧
    create FlatTerrain.standard.source ⟨false, true, Scene.blankTexture, false, true⟩
      ⟨[], [], 2, 0⟩ { Settings.standard with maxTileSize := Scalar.twoPow 30 }
        = .error (.fault .resolutionOverflow) := by
  refine ⟨?_, ?_, ?_, ?_⟩
  · decide +kernel
  · rw [create_eq_error_iff]
    decide +kernel
  · decide +kernel
  · rw [create_eq_error_iff]
    decide +kernel

end Landscape

end TerrainPatches
