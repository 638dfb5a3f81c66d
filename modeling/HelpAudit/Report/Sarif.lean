import HelpAudit.Json.Writer
import HelpAudit.Report
import HelpAudit.Rule
import HelpAudit.Rule.ParameterDocumentation

/-! The report as a SARIF 2.1.0 log, the form that code scanning services read. Suggested corrections
    become fixes: the range of the correction is the deleted region, its text the inserted content. -/

namespace HelpAudit.SarifReport

/-- A region of a file. -/
structure Region where
  startLine : Nat
  startColumn : Nat
  endLine : Nat
  endColumn : Nat
  deriving DecidableEq

def Region.ofExtent (e : Extent) : Region := ⟨e.startLine, e.startColumn, e.endLine, e.endColumn⟩

def Region.ofCorrection (c : Correction) : Region :=
  ⟨c.startLine, c.startColumn, c.endLine, c.endColumn⟩

def Region.toJson (region : Region) : Json :=
  .obj [("startLine", .nat region.startLine), ("startColumn", .nat region.startColumn),
    ("endLine", .nat region.endLine), ("endColumn", .nat region.endColumn)]

/-- The word for a severity. -/
def level : Severity → String
  | .information => "note"
  | .warning => "warning"
  | .error => "error"
  | .parseError => "error"

def message (text : String) : Json := .obj [("text", .str text)]

/-- A path with forward slashes. -/
def uri (path : String) : String :=
  .ofList (path.toList.map fun c => if c = '\\' then '/' else c)

def artifact (uri : String) : Json := .obj [("uri", .str uri)]

/-- A rule as the log describes it. -/
def rule (info : RuleInfo) : Json :=
  .obj [("id", .str info.name), ("name", .str info.commonName),
    ("shortDescription", message info.commonName), ("fullDescription", message info.description),
    ("defaultConfiguration", .obj [("level", .str (level info.severity.toSeverity))])]

/-- A correction in the file with the given address, or in its own file. -/
def fix (address : String) (c : Correction) : Json :=
  .obj [("description", message c.description),
    ("artifactChanges", .arr [.obj [("artifactLocation", artifact ((c.file.map uri).getD address)),
      ("replacements", .arr [.obj [("deletedRegion", (Region.ofCorrection c).toJson),
        ("insertedContent", message c.text)]])]])]

/-- A member that is left out when it would be empty. -/
def memberUnlessEmpty (key : String) : List Json → List (String × Json)
  | [] => []
  | items => [(key, .arr items)]

/-- The names that a finding mentions. -/
def properties (d : Diagnostic) : List (String × Json) :=
  Json.memberIfSome "functionName" (d.functionName.map .str) ++
    Json.memberIfSome "parameterName" (d.subject.map .str)

/-- A finding in the file with the given path, unless it names another. -/
def result (path : String) (d : Diagnostic) : Json :=
  let address := uri (d.scriptPath.getD path)
  .obj ([("ruleId", .str d.ruleName), ("level", .str (level d.severity)),
      ("message", message d.message),
      ("locations", .arr [.obj [("physicalLocation", .obj [("artifactLocation", artifact address),
        ("region", (Region.ofExtent d.extent).toJson)])]])] ++
    memberUnlessEmpty "fixes" (d.corrections.map (fix address)) ++
    match properties d with
    | [] => []
    | members => [("properties", .obj members)])

/-- What is said about a file that could not be analyzed. -/
def notification (report : FileReport) : Option Json :=
  report.error.map fun error =>
    .obj [("level", .str (level .error)), ("message", message s!"{report.path}: {error}")]

/-- The log of a run of a tool with some rules, which ended at the given time. -/
def toJson (tool : Tool) (rules : List RuleInfo) (time : String) (reports : List FileReport) : Json :=
  let notifications := reports.filterMap notification
  let driver := Json.obj ([("name", .str tool.name), ("version", .str tool.version)] ++
    memberUnlessEmpty "rules" (rules.map rule))
  let invocation := Json.obj ([("executionSuccessful", .bool notifications.isEmpty),
    ("endTimeUtc", .str time)] ++ memberUnlessEmpty "toolExecutionNotifications" notifications)
  .obj [("$schema", .str "https://json.schemastore.org/sarif-2.1.0.json"), ("version", .str "2.1.0"),
    ("runs", .arr [.obj [("tool", .obj [("driver", driver)]),
      ("results", .arr (reports.flatMap fun report => report.diagnostics.map (result report.path))),
      ("invocations", .arr [invocation])]])]

/-- The text of a log. -/
def render (tool : Tool) (rules : List RuleInfo) (time : String) (reports : List FileReport) : String :=
  (toJson tool rules time reports).pretty

end HelpAudit.SarifReport
