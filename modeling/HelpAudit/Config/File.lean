import HelpAudit.FileTree
import HelpAudit.Toml.Writer
import HelpAudit.Yaml.Writer

/-! Configuration files. The extension of a file decides whether it is YAML; all others are TOML. -/

namespace HelpAudit

/-- The formats of configuration files. -/
inductive ConfigFormat where
  | toml
  | yaml
  deriving DecidableEq

namespace ConfigFormat

/-- The name of a format. -/
def name : ConfigFormat → String
  | .toml => "TOML"
  | .yaml => "YAML"

/-- The format of the file at a path. -/
def ofPath (path : String) : ConfigFormat :=
  if Path.hasExtension path ["yaml", "yml"] then .yaml else .toml

end ConfigFormat

namespace Config

/-- The configuration that a text holds. -/
def ofText? (format : ConfigFormat) (text : String) : Option Config :=
  match format with
  | .toml => (Toml.ofText? text).bind DataFormat.toml.config?
  | .yaml => (Yaml.ofText? text).bind DataFormat.yaml.config?

/-- The text of a configuration. -/
def toText (format : ConfigFormat) (config : Config) : String :=
  match format with
  | .toml => Toml.render config.members
  | .yaml => Yaml.render config.members

end Config

/-- Why a configuration cannot be loaded or saved. -/
inductive ConfigError where
  | unreadable (path : String) (reason : FileError)
  | invalid (format : ConfigFormat) (path : String)
  | unwritable (path : String) (reason : FileError)
  deriving DecidableEq

/-- The wording of a configuration error. -/
def ConfigError.message : ConfigError → String
  | .unreadable path reason => s!"Failed to read config from {path}: {reason.message}"
  | .invalid format path => s!"Failed to parse {format.name} config from {path}"
  | .unwritable path reason => s!"Failed to write config to {path}: {reason.message}"

/-- Loads the configuration at a path. -/
def FileSystem.loadConfig (system : FileSystem) (path : String) : Except ConfigError Config :=
  match system.readText path with
  | .error reason => .error (.unreadable path reason)
  | .ok text =>
    match Config.ofText? (.ofPath path) text with
    | some config => .ok config
    | none => .error (.invalid (.ofPath path) path)

/-- The bytes of the file of a configuration at a path. -/
def configBytes (path : String) (config : Config) : List UInt8 :=
  Text.utf8 (config.toText (.ofPath path)).toList

/-- Saves a configuration at a path. -/
def FileSystem.saveConfig (system : FileSystem) (path : String) (config : Config) :
    Except ConfigError FileSystem :=
  match system.write path (configBytes path config) with
  | .ok system => .ok system
  | .error reason => .error (.unwritable path reason)

end HelpAudit
