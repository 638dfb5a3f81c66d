import HelpAudit.Diagnostic
import HelpAudit.ParseError

/-! Rules: what a rule says about itself, what it does with a tree, and what may go wrong. -/

namespace HelpAudit

/-- The severities that a rule's findings may have. -/
inductive RuleSeverity where
  | information
  | warning
  | error
  deriving DecidableEq

namespace RuleSeverity

def word : RuleSeverity → String
  | .information => "information"
  | .warning => "warning"
  | .error => "error"

/-- The severity of the rule's findings. -/
def toSeverity : RuleSeverity → Severity
  | .information => .information
  | .warning => .warning
  | .error => .error

def table : List (String × RuleSeverity) :=
  [RuleSeverity.information, .warning, .error].map fun severity => (severity.word, severity)

end RuleSeverity

/-- Where a rule comes from. -/
inductive RuleOrigin where
  | builtin
  | managed
  | module
  deriving DecidableEq

namespace RuleOrigin

def word : RuleOrigin → String
  | .builtin => "builtin"
  | .managed => "managed"
  | .module => "module"

def table : List (String × RuleOrigin) :=
  [RuleOrigin.builtin, .managed, .module].map fun origin => (origin.word, origin)

end RuleOrigin

/-- What a rule says about itself. -/
structure RuleInfo where
  name : String
  commonName : String
  description : String
  severity : RuleSeverity
  origin : RuleOrigin
  sourceName : String
  deriving DecidableEq

def RuleInfo.toJson (info : RuleInfo) : Json :=
  .obj [("name", .str info.name), ("common_name", .str info.commonName),
    ("description", .str info.description), ("severity", .str info.severity.word),
    ("source_type", .str info.origin.word), ("source_name", .str info.sourceName)]

/-- What stops an analysis. -/
inductive AnalysisError where
  | absentTree
  | parse (error : ParseError)
  /-- The JSON text of a tree could not be read. -/
  | invalidTree
  | unreadable (path : String) (reason : String)
  | config (reason : String)
  | rule (name : String) (reason : String)
  deriving DecidableEq

/-- The wording of an error. -/
def AnalysisError.message : AnalysisError → String
  | .absentTree => "syntax tree is absent; nothing to analyze"
  | .parse error => error.message
  | .invalidTree => "invalid syntax tree JSON"
  | .unreadable path reason => s!"failed to read {path}: {reason}"
  | .config reason => s!"invalid configuration: {reason}"
  | .rule name reason => s!"rule '{name}' failed: {reason}"

/-- How an analysis ends without findings: with an error, or broken off at a sum that does not fit in 64
    bits. One that breaks off hands nothing over, and what waits for it breaks off as well. -/
inductive Failure where
  | reported (error : AnalysisError)
  | overflow
  deriving DecidableEq

/-- A script that a rule had evaluated, with the time it was given. -/
structure Call where
  script : String
  timeoutMs : Nat
  deriving DecidableEq

/-- What a run of a rule leaves: its findings or its failure, and the scripts it had evaluated. -/
structure RuleRun where
  outcome : Except Failure (List Diagnostic)
  calls : List Call

/-- A rule: its description and its run on a tree, with the name of the script's file. -/
structure Rule where
  info : RuleInfo
  run : ScriptBlock → Option String → RuleRun

/-- The name by which a rule is known. -/
def Rule.name (rule : Rule) : String := rule.info.name

end HelpAudit
