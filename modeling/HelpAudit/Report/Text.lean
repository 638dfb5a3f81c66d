import HelpAudit.Report
import HelpAudit.Terminal

/-! The report for readers: the findings of each file under its path, then the totals. -/

namespace HelpAudit.TextReport

/-- How the word for a severity looks. -/
def severityStyle : Severity → Style
  | .information => { color := some .blue }
  | .warning => { color := some .yellow }
  | .error => { bold := true, color := some .red }
  | .parseError => { bold := true, color := some .red }

def severitySpan (severity : Severity) : Span := ⟨severity.display, severityStyle severity⟩

def lineEnd : Span := "\n"

/-- The line of a finding. -/
def diagnosticLine (d : Diagnostic) : List Span :=
  let owner := match d.functionName with
    | some name => s!" [{name}]"
    | none => ""
  ["  ", ⟨s!"{d.extent.startLine}:{d.extent.startColumn}", { dimmed := true }⟩, " ",
    severitySpan d.severity, " ", ⟨d.ruleName, { color := some .cyan }⟩, owner, s!" {d.message}\n"]

/-- The line of the error of a file. -/
def errorLine (error : String) : List Span :=
  ["  ", severitySpan .parseError, s!" {error}\n"]

/-- The part of one file. Nothing is said about a file without findings and errors. -/
def filePart (report : FileReport) : List Span :=
  if report.diagnostics.isEmpty && report.error.isNone then []
  else
    let path : Span := ⟨report.path, { bold := true, underline := true }⟩
    path :: lineEnd :: (report.error.map errorLine).getD [] ++
      report.diagnostics.flatMap diagnosticLine ++ [lineEnd]

/-- The line of the totals. -/
def totalsLine (totals : ReportTotals) : List Span :=
  let failed : List Span :=
    if 0 < totals.failedFiles then [", ", ⟨s!"{totals.failedFiles} failed", { color := some .red }⟩]
    else []
  let label : Span := ⟨"Summary:", { bold := true }⟩
  label :: s!" {totals.files} file(s), {totals.diagnostics} diagnostic(s)" :: failed ++ [lineEnd]

/-- The whole report. -/
def spans (reports : List FileReport) : List Span :=
  reports.flatMap filePart ++ totalsLine (.ofReports reports)

/-- The text of the report. -/
def render (colored : Bool) (reports : List FileReport) : String :=
  renderSpans colored (spans reports)

end HelpAudit.TextReport
