import HelpAudit.Json.Writer
import HelpAudit.Report

/-! The report for programs, in JSON. -/

namespace HelpAudit.StructuredReport

/-- The report, with the time at which it was made. -/
def toJson (time : String) (reports : List FileReport) : Json :=
  let tool : Tool := {}
  .obj [("tool", .str tool.name), ("version", .str tool.version), ("generated_at", .str time),
    ("summary", (ReportTotals.ofReports reports).toJson),
    ("files", .arr (reports.map FileReport.toJson))]

/-- The report over several lines. -/
def pretty (time : String) (reports : List FileReport) : String := (toJson time reports).pretty

/-- The report on one line. -/
def compact (time : String) (reports : List FileReport) : String := (toJson time reports).compact

end HelpAudit.StructuredReport
