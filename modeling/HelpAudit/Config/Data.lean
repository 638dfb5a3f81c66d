import HelpAudit.Config

/-! Configurations as data. The same record is read from several data formats, which differ in their
    values; a `DataFormat` says how the parts of a record are taken from a value of the format. -/

namespace HelpAudit

/-- How values of a data format are read. -/
structure DataFormat (ν : Type) where
  /-- The named fields of a record, absent ones as `none`. -/
  record? : (names : List String) → ν → Option (List (Option ν))
  /-- The entries of a map with arbitrary keys. -/
  entries? : ν → Option (List (String × ν))
  items? : ν → Option (List ν)
  bool? : ν → Option Bool
  string? : ν → Option String
  /-- A natural number of 64 bits. -/
  word? : ν → Option Nat
  /-- Whether the value says that an optional one is absent. -/
  isNull : ν → Bool

namespace DataFormat

variable {ν : Type} (format : DataFormat ν)

/-- A field, or its default when it is missing. -/
def field {α : Type} (default : α) (read : ν → Option α) : Option ν → Option α
  | some value => read value
  | none => some default

/-- An optional field, which may be missing or null. -/
def optionalField {α : Type} (read : ν → Option α) : Option ν → Option (Option α)
  | some value => if format.isNull value then some none else (read value).map some
  | none => some none

/-- The entries of a map without repetitions: a later entry takes the place of one with its key. -/
def keepLast {α : Type} : List (String × α) → List (String × α)
  | [] => []
  | entry :: entries =>
    if entries.any (·.1 = entry.1) then keepLast entries else entry :: keepLast entries

def ruleConfig? (value : ν) : Option RuleConfig := do
  match ← format.record? ["enabled"] value with
  | [enabled] => return { enabled := ← field true format.bool? enabled }
  | _ => none

def dynamicSettings? (value : ν) : Option DynamicSettings := do
  let default : DynamicSettings := {}
  match ← format.record? ["enabled", "interpreter", "interpreter_args", "timeout_ms"] value with
  | [enabled, interpreter, interpreterArgs, timeoutMs] =>
    return {
      enabled := ← field default.enabled format.bool? enabled
      interpreter := ← field default.interpreter format.string? interpreter
      interpreterArgs := ← field default.interpreterArgs
        (fun value => do (← format.items? value).mapM format.string?) interpreterArgs
      timeoutMs := ← field default.timeoutMs format.word? timeoutMs }
  | _ => none

def settings? (value : ν) : Option Settings := do
  let default : Settings := {}
  match ← format.record? ["threads", "use_colors", "dynamic_parameters"] value with
  | [threads, useColors, dynamicParameters] =>
    return {
      threads := ← format.optionalField format.word? threads
      useColors := ← field default.useColors format.bool? useColors
      dynamicParameters := ← field {} format.dynamicSettings? dynamicParameters }
  | _ => none

def rules? (value : ν) : Option (List (String × RuleConfig)) := do
  let entries ← (← format.entries? value).mapM fun entry => do
    return (entry.1, ← format.ruleConfig? entry.2)
  return keepLast entries

/-- The configuration in a value. Unknown fields are passed over. -/
def config? (value : ν) : Option Config := do
  let default : Config := {}
  match ← format.record? ["version", "settings", "rules"] value with
  | [version, settings, rules] =>
    return {
      version := ← field default.version format.string? version
      settings := ← field {} format.settings? settings
      rules := ← field [] format.rules? rules }
  | _ => none

end DataFormat

/-- Configurations in JSON. -/
def DataFormat.json : DataFormat Json where
  record? := Json.fields?
  entries? := fun
    | .obj members => some members
    | _ => none
  items? := fun
    | .arr items => some items
    | _ => none
  bool? := Json.bool?
  string? := Json.string?
  word? := Json.word?
  isNull := fun
    | .null => true
    | _ => false

/-! ### Writing -/

/-- A configuration as named values, in the order of its fields. The data formats print them. -/
def Config.members (config : Config) : List (String × Json) :=
  let dynamic := config.settings.dynamicParameters
  [("version", .str config.version),
    ("settings", .obj (Json.memberIfSome "threads" (config.settings.threads.map .nat) ++
      [("use_colors", .bool config.settings.useColors),
        ("dynamic_parameters", .obj [("enabled", .bool dynamic.enabled),
          ("interpreter", .str dynamic.interpreter),
          ("interpreter_args", .strings dynamic.interpreterArgs),
          ("timeout_ms", .nat dynamic.timeoutMs)])])),
    ("rules", .obj (config.rules.map fun (name, rule) =>
      (name, .obj [("enabled", .bool rule.enabled)])))]

/-- A configuration in JSON. -/
def Config.toJson (config : Config) : Json := .obj config.members

end HelpAudit
