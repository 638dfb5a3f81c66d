import HelpAudit.Diagnostic
import HelpAudit.Json.Reader

/-! What an analysis of files found: one report for each file, and totals over them. -/

namespace HelpAudit

open Json (required optional list? string? fields?)

/-- What was found in one file. The error tells why a file could not be read or parsed. -/
structure FileReport where
  path : String
  diagnostics : List Diagnostic := []
  error : Option String := none
  deriving DecidableEq

/-- Totals over the reports of some files. -/
structure ReportTotals where
  files : Nat
  filesWithDiagnostics : Nat
  diagnostics : Nat
  failedFiles : Nat
  deriving DecidableEq

/-- The totals of a list of reports. -/
def ReportTotals.ofReports (reports : List FileReport) : ReportTotals where
  files := reports.length
  filesWithDiagnostics := (reports.filter fun report => !report.diagnostics.isEmpty).length
  diagnostics := (reports.flatMap fun report => report.diagnostics).length
  failedFiles := (reports.filter fun report => report.error.isSome).length

/-! ### JSON -/

def FileReport.toJson (report : FileReport) : Json :=
  .obj ([("path", .str report.path), ("diagnostics", .arr (report.diagnostics.map Diagnostic.toJson))] ++
    Json.memberIfSome "error" (report.error.map .str))

def FileReport.ofJson? : (room : Nat) → Json → Option FileReport
  | 0, _ => none
  | room + 1, json => do
    match ← fields? ["path", "diagnostics", "error"] json with
    | [path, diagnostics, error] =>
      return {
        path := ← required string? path
        diagnostics := ← required (list? Diagnostic.ofJson? room) diagnostics
        error := ← optional string? error }
    | _ => none

def ReportTotals.toJson (totals : ReportTotals) : Json :=
  .obj [("files", .nat totals.files), ("files_with_diagnostics", .nat totals.filesWithDiagnostics),
    ("diagnostics", .nat totals.diagnostics), ("failed_files", .nat totals.failedFiles)]

/-! ### Formats -/

/-- The forms in which reports are written. -/
inductive ReportFormat where
  | text
  | json
  | sarif
  deriving DecidableEq

/-- The format with a name, whatever the case of its letters. -/
def ReportFormat.ofName? (name : String) : Option ReportFormat :=
  match name.toLower with
  | "text" | "txt" => some .text
  | "json" => some .json
  | "sarif" => some .sarif
  | _ => none

/-- What is said about a name that no format has. -/
def ReportFormat.unknown (name : String) : String := s!"Unknown report format: {name}"

/-- The tool that a report names as its author. -/
structure Tool where
  name : String := "pshelp-analyzer"
  version : String := "0.3.0"
  deriving DecidableEq

end HelpAudit
