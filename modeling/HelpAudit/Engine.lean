import HelpAudit.Config
import HelpAudit.Evaluation.Process
import HelpAudit.Rule.Registry
import HelpAudit.Rule.Stats
import HelpAudit.Tree.Parser

/-! The engine runs the enabled rules of a registry over a tree and keeps statistics. A rule that
    fails ends the run; the rules before it keep their statistics. -/

namespace HelpAudit

/-- How dynamic parameters are found under the given settings. -/
def DynamicSettings.evaluator (settings : DynamicSettings) (programs : Programs) : Evaluator :=
  if settings.enabled then
    .process programs settings.interpreter settings.interpreterArgs settings.timeoutMs
  else .disabled

/-- The registry of the built-in rules. -/
def Registry.builtin (settings : Settings) (programs : Programs) : Registry :=
  Registry.register {} (ParameterDocumentation.rule (settings.dynamicParameters.evaluator programs))

/-- A configuration, rules and the statistics of their runs. -/
structure Engine where
  config : Config
  registry : Registry
  stats : StatsTable := []

/-- What an analysis leaves: the findings or the failure, the scripts that were evaluated, and the
    statistics after it. -/
structure Analysis where
  outcome : Except Failure (List Diagnostic)
  calls : List Call
  stats : StatsTable

/-- Runs the enabled rules of a list in order. `clock` tells how many microseconds each rule takes. -/
def runRules (config : Config) (clock : String → UInt64) (tree : ScriptBlock)
    (file : Option String) (stats : StatsTable) : List Rule → Analysis
  | [] => ⟨.ok [], [], stats⟩
  | rule :: rules =>
    if config.isEnabled rule.name then
      let run := rule.run tree file
      match run.outcome with
      | .error failure => ⟨.error failure, run.calls, stats⟩
      | .ok found =>
        let stats := stats.record rule.name (.ofNat found.length) (clock rule.name)
        let rest := runRules config clock tree file stats rules
        ⟨rest.outcome.map (found ++ ·), run.calls ++ rest.calls, rest.stats⟩
    else runRules config clock tree file stats rules

namespace Engine

/-- The engine with the built-in rules. -/
def new (config : Config) (programs : Programs) : Engine where
  config := config
  registry := .builtin config.settings programs

/-- Analyzes a tree, which may be absent. -/
def analyze (engine : Engine) (clock : String → UInt64) (tree : Option ScriptBlock)
    (file : Option String) : Analysis :=
  match tree with
  | none => ⟨.error (.reported .absentTree), [], engine.stats⟩
  | some tree => runRules engine.config clock tree file engine.stats engine.registry.rules

/-- The engine with other statistics. -/
def withStats (engine : Engine) (stats : StatsTable) : Engine := { engine with stats := stats }

/-- The engine with empty statistics. -/
def clearStats (engine : Engine) : Engine := engine.withStats []

/-- The totals over all rules. -/
def summary (engine : Engine) : RulesSummary where
  totalRules := engine.registry.rules.length
  enabledRules := (engine.registry.names.filter engine.config.isEnabled).length
  applications := engine.stats.total (·.applications)
  violations := engine.stats.total (·.violations)
  averageTime := engine.stats.averageTime

/-- An analysis that cannot start. -/
def refuse (engine : Engine) (error : AnalysisError) : Analysis :=
  ⟨.error (.reported error), [], engine.stats⟩

/-- Parses and analyzes a source. -/
def analyzeSource (engine : Engine) (clock : String → UInt64) (source : String)
    (file : Option String) : Analysis :=
  match parse source file with
  | .ok tree => engine.analyze clock (some tree) file
  | .error error => engine.refuse (.parse error)

/-- Reads and analyzes the JSON text of a tree. The file's name is the given one, or else the one
    that the tree names. -/
def analyzeTreeText (engine : Engine) (clock : String → UInt64) (text : String)
    (file : Option String) : Analysis :=
  match ScriptBlock.ofText? text with
  | some tree => engine.analyze clock tree (file <|> tree.bind (·.extent.file))
  | none => engine.refuse .invalidTree

end Engine

end HelpAudit
