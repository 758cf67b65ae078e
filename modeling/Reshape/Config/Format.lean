import Reshape.Config.Fields
import Reshape.Failure
import Reshape.Json.Decode
import Reshape.Json.Write
import Reshape.Yaml.Decode
import Reshape.Yaml.Write

/-! # Configurations as texts

A configuration is written in JSON or in YAML. Reading one brings its thresholds into range. -/

namespace Reshape

/-- The formats of a configuration. -/
inductive ConfigFormat where
  | json
  | yaml
  deriving Repr, DecidableEq

namespace ConfigFormat

/-- The name of a format. -/
def name : ConfigFormat → String
  | json => "JSON"
  | yaml => "YAML"

/-- The format of the files with an extension. -/
def ofExtension? (ext : String) : Option ConfigFormat :=
  if ext = "json" then some json
  else if ext = "yaml" ∨ ext = "yml" then some yaml
  else none

end ConfigFormat

/-- How JSON values are read. -/
def Json.fieldReader : FieldReader Json :=
  { fields? := Json.fields?, strings? := Json.strings?, float? := Json.float?, nat? := Json.nat?,
    bool? := Json.bool? }

/-- How YAML values are read. -/
def Yaml.fieldReader : FieldReader Yaml :=
  { fields? := Yaml.fields?, strings? := Yaml.strings?, float? := Yaml.float?, nat? := Yaml.nat?,
    bool? := Yaml.bool? }

namespace Config

/-- The configuration that a text stands for, as it is written. -/
def parse? (format : ConfigFormat) (text : String) : Option Config :=
  match format with
  | .json => (Json.read? text).bind (readFields? Json.fieldReader)
  | .yaml => (Yaml.read? text).bind (readFields? Yaml.fieldReader)

/-- Read a configuration. -/
def read (format : ConfigFormat) (text : String) : Except Failure Config :=
  match parse? format text with
  | some config => .ok config.normalized
  | none => .error (.invalidConfig s!"Failed to parse {format.name} config")

/-- Read the configuration in a file, of which `text?` is the content if it exists. -/
def ofFile (path : Path) (text? : Option String) : Except Failure Config := do
  let some format := path.extension?.bind ConfigFormat.ofExtension?
    | throw (.invalidConfig s!"Unknown config format: {path.text}")
  let some text := text?
    | throw (.inaccessible "read config file")
  read format text

/-- The configuration in JSON. -/
def toJson (config : Config) : Json :=
  .object [("extensions", .ofList .string config.extensions),
    ("exclude_patterns", .ofList .string config.excludePatterns),
    ("thresholds", .object (config.thresholds.fields .ofFloat .ofNat)),
    ("parallel", .bool config.parallel)]

/-- The configuration in YAML. -/
def toYaml (config : Config) : Yaml :=
  let text (s : String) : Yaml := .quoted s
  .mapping [(.plain "extensions", .sequence (config.extensions.map text)),
    (.plain "exclude_patterns", .sequence (config.excludePatterns.map text)),
    (.plain "thresholds", .mapping ((config.thresholds.fields .ofFloat .ofNat).map
      fun (name, value) => (.plain name, value))),
    (.plain "parallel", .ofBool config.parallel)]

/-- The text of a configuration. -/
def write (format : ConfigFormat) (config : Config) : String :=
  match format with
  | .json => config.toJson.pretty
  | .yaml => config.toYaml.write

end Config

end Reshape
