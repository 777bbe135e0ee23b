import TerrainPatches.Decimal.Positional
import TerrainPatches.Resolution

/-!
# Settings, and what is wrong with them

`Settings` are those of a landscape, `BakeSettings` those of the queues its composites are baked
from.  Each has a check that names the first setting that would make patches go wrong; a number
that is not a number fails every check it meets.

Delays and budgets are whole milliseconds.
-/

namespace TerrainPatches

/-- a setting that cannot be used -/
inductive SettingError where
  | tileSizeNotPositive (size : Float32)
  | bakedFromNotPositive (size : Float32)
  | textureSizeZero
  | pendingCapacityZero
  | tooFewCellVertices (n : Nat)
  | tileBelowOneInterval (size : Float32) (cellVertices : Nat)
deriving DecidableEq

def SettingError.message : SettingError → String
  | .tileSizeNotPositive size =>
    "max composite geometry size must be positive, got " ++ floatText size
  | .bakedFromNotPositive size => "composite map level must be positive, got " ++ floatText size
  | .textureSizeZero => "composite map texture size must be non-zero"
  | .pendingCapacityZero => "pending composite map queue capacity must be non-zero"
  | .tooFewCellVertices n =>
    "terrain cells need at least 2 vertices per edge, data source reports " ++ toString n
  | .tileBelowOneInterval size n =>
    "max composite geometry size " ++ floatText size ++ " is less than one interval of a " ++
      toString n ++ "-vertex cell"

/-- why nothing could be set up: a setting, or a fault on the way -/
inductive SetupError where
  | setting (e : SettingError)
  | fault (f : Fault)
deriving DecidableEq

/-! ## a landscape -/

structure Settings where
  /-- the world that all patches are sampled from -/
  world : UInt64
  /-- width and height in texels of a composite -/
  textureSize : Nat
  /-- patches at least this large are drawn with one baked composite -/
  bakedFrom : Float32
  /-- the greatest tile of a composite -/
  maxTileSize : Float32
  /-- how long a cached patch may go unused -/
  expiry : Nat
  /-- stamped on every patch -/
  nodeMask : UInt32

namespace Settings

def standard : Settings where
  world := 0
  textureSize := 512
  bakedFrom := Scalar.one
  maxTileSize := Scalar.one
  expiry := 5000
  nodeMask := 0

def checkTileSize (size : Float32) : Except SettingError Unit :=
  if Scalar.zero < size then .ok () else .error (.tileSizeNotPositive size)

/-- the settings on their own -/
def check (s : Settings) : Except SettingError Unit := do
  checkTileSize s.maxTileSize
  if ¬ Scalar.zero < s.bakedFrom then throw (.bakedFromNotPositive s.bakedFrom)
  if s.textureSize = 0 then throw .textureSizeZero

/-- the settings against a cell of the terrain: it must have an interval, and so must a tile -/
def checkCell (s : Settings) (cellVertices : Nat) : Except SetupError Unit :=
  if cellVertices < 2 then .error (.setting (.tooFewCellVertices cellVertices))
  else match resolution cellVertices s.maxTileSize 0 with
    | .error f => .error (.fault f)
    | .ok n =>
      if n < 2 then .error (.setting (.tileBelowOneInterval s.maxTileSize cellVertices)) else .ok ()

end Settings

/-! ## bakes -/

structure BakeSettings where
  /-- how many composites may wait for a bake that is not urgent -/
  capacity : Nat
  /-- time per frame for bakes that are not urgent -/
  budget : Nat

namespace BakeSettings

def standard : BakeSettings := ⟨64, 1⟩

def check (s : BakeSettings) : Except SettingError Unit :=
  if s.capacity = 0 then .error .pendingCapacityZero else .ok ()

end BakeSettings

end TerrainPatches
