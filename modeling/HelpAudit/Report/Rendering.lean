import HelpAudit.Report.Sarif
import HelpAudit.Report.Structured
import HelpAudit.Report.Text

/-! Reports in each of their formats. -/

namespace HelpAudit

/-- The time at which reports are made, written with the given mark for universal time. -/
abbrev ReportTime := (zone : String) → String

/-- The reports in a format. Only the text has colours. -/
def ReportFormat.render (format : ReportFormat) (colored : Bool) (time : ReportTime)
    (reports : List FileReport) : String :=
  match format with
  | .text => TextReport.render colored reports
  | .json => StructuredReport.pretty (time "Z") reports
  | .sarif => SarifReport.render {} [ParameterDocumentation.info] (time "+00:00") reports

end HelpAudit
