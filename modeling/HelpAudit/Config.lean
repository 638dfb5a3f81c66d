import HelpAudit.Json.Record
import HelpAudit.Rule.ParameterDocumentation

/-! The configuration of the analysis: general settings, how dynamic parameters are resolved, and
    which rules are switched off. Every part has a default. -/

namespace HelpAudit

/-- What is configured for one rule. -/
structure RuleConfig where
  enabled : Bool := true
  deriving DecidableEq

/-- How the parameters of `dynamicparam` blocks are found. -/
structure DynamicSettings where
  enabled : Bool := true
  interpreter : String := "pwsh"
  interpreterArgs : List String := ["-NoLogo", "-NoProfile", "-NonInteractive", "-EncodedCommand"]
  timeoutMs : Nat := 10000
  deriving DecidableEq

/-- General settings. -/
structure Settings where
  threads : Option Nat := none
  useColors : Bool := true
  dynamicParameters : DynamicSettings := {}
  deriving DecidableEq

/-- A configuration. The rules are a map: the order of its entries has no meaning. -/
structure Config where
  version : String := "1.0"
  settings : Settings := {}
  rules : List (String × RuleConfig) := []
  deriving DecidableEq

namespace Config

/-- The configuration that is used when none is given; it names the built-in rule. -/
def standard : Config := { rules := [(ParameterDocumentation.info.name, {})] }

/-- What is configured for a rule, whatever the case of its name's ASCII letters. -/
def rule? (config : Config) (name : String) : Option RuleConfig :=
  (config.rules.find? fun entry => Text.sameIgnoringAsciiCase entry.1 name).map (·.2)

/-- Whether a rule is to be run. Rules that are not mentioned are. -/
def isEnabled (config : Config) (name : String) : Bool :=
  ((config.rule? name).map (·.enabled)).getD true

/-- The names of the built-in rules. -/
def knownRules : List String := [ParameterDocumentation.info.name]

/-- Warnings about entries that are likely mistakes. -/
def warnings (config : Config) : List String :=
  let names := (config.rules.map (·.1)).mergeSort (· ≤ ·)
  let unknown := names.filter fun name => !knownRules.any (Text.sameIgnoringAsciiCase · name)
  let dynamic := config.settings.dynamicParameters
  (unknown.map fun name => s!"Unknown rule '{name}'") ++
    (if dynamic.enabled && dynamic.timeoutMs = 0 then
      ["settings.dynamic_parameters.timeout_ms is 0; every evaluation will time out"] else []) ++
    (if dynamic.enabled && (Text.trim dynamic.interpreter).isEmpty then
      ["settings.dynamic_parameters.interpreter is empty"] else []) ++
    (if config.settings.threads = some 0 then
      ["settings.threads is 0; the default thread count is used"] else [])

end Config

end HelpAudit
