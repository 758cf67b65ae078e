import Reshape.Thresholds

/-! # Configuration of a comparison -/

namespace Reshape

/-- What a comparison can be told. -/
structure Config where
  /-- Extensions of the files to load; none means all files. -/
  extensions : List String := ["java", "py"]
  /-- Patterns of the paths to leave out. -/
  excludePatterns : List String := ["**/.git/**", "**/target/**"]
  thresholds : Thresholds := {}
  /-- Whether files may be compared at the same time. The result does not depend on it. -/
  parallel : Bool := true
  deriving Repr, DecidableEq, Inhabited

namespace Config

variable (config : Config)

/-- The configuration with its thresholds brought into range. -/
def normalized : Config :=
  { config with thresholds := config.thresholds.clamped }

/-- The configuration with other thresholds, brought into range. -/
def withThresholds (thresholds : Thresholds) : Config :=
  { config with thresholds := thresholds.clamped }

/-- The configuration with another least score for operations. -/
def withOperationMatch (x : Float) : Config :=
  { config with
    thresholds := { config.thresholds with operationMatch := Thresholds.clampRatio x } }

/-- The configuration with another least Dice coefficient. -/
def withDice (x : Float) : Config :=
  { config with thresholds := { config.thresholds with dice := Thresholds.clampRatio x } }

/-- The configuration for comparing one file after the other. -/
def sequential : Config :=
  { config with parallel := false }

end Config

end Reshape
