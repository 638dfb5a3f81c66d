import HelpAudit.Json.Record
import HelpAudit.Tree.Json

/-! Findings, and the corrections they suggest. -/

namespace HelpAudit

open Json (required defaulting optional list? string? word? choice? fields?)

/-- How serious a finding is. -/
inductive Severity where
  | information
  | warning
  | error
  | parseError
  deriving DecidableEq

/-- The word for a severity in messages. -/
def Severity.display : Severity → String
  | .information => "information"
  | .warning => "warning"
  | .error => "error"
  | .parseError => "parse error"

/-- The word for a severity in JSON. -/
def Severity.word : Severity → String
  | .information => "Information"
  | .warning => "Warning"
  | .error => "Error"
  | .parseError => "ParseError"

/-- The severities by their words. -/
def Severity.table : List (String × Severity) :=
  [Severity.information, .warning, .error, .parseError].map fun severity => (severity.word, severity)

/-- A place where a text should go. -/
structure Correction where
  startLine : Nat
  endLine : Nat
  startColumn : Nat
  endColumn : Nat
  text : String
  file : Option String
  description : String
  deriving DecidableEq

/-- A finding of a rule. -/
structure Diagnostic where
  message : String
  extent : Extent
  ruleName : String
  severity : Severity
  scriptPath : Option String
  functionName : Option String := none
  /-- What the finding is about, a parameter's name for instance. -/
  subject : Option String := none
  corrections : List Correction := []
  deriving DecidableEq

/-- `path:line:column` of the finding's start. -/
def Diagnostic.location (d : Diagnostic) : String :=
  let path := d.scriptPath.getD "<script>"
  s!"{path}:{d.extent.startLine}:{d.extent.startColumn}"

/-! ### JSON -/

def Correction.toJson (c : Correction) : Json :=
  .obj [("start_line", .nat c.startLine), ("end_line", .nat c.endLine),
    ("start_column", .nat c.startColumn), ("end_column", .nat c.endColumn), ("text", .str c.text),
    ("file", .ofOption c.file), ("description", .str c.description)]

def Diagnostic.toJson (d : Diagnostic) : Json :=
  .obj [("message", .str d.message), ("extent", d.extent.toJson), ("rule_name", .str d.ruleName),
    ("severity", .str d.severity.word), ("script_path", .ofOption d.scriptPath),
    ("function_name", .ofOption d.functionName), ("subject", .ofOption d.subject),
    ("suggested_corrections", .arr (d.corrections.map Correction.toJson))]

def Correction.ofJson? : (room : Nat) → Json → Option Correction
  | 0, _ => none
  | _ + 1, json => do
    match ← fields? ["start_line", "end_line", "start_column", "end_column", "text", "file",
        "description"] json with
    | [startLine, endLine, startColumn, endColumn, text, file, description] =>
      return {
        startLine := ← required word? startLine
        endLine := ← required word? endLine
        startColumn := ← required word? startColumn
        endColumn := ← required word? endColumn
        text := ← required string? text
        file := ← optional string? file
        description := ← required string? description }
    | _ => none

def Diagnostic.ofJson? : (room : Nat) → Json → Option Diagnostic
  | 0, _ => none
  | room + 1, json => do
    match ← fields? ["message", "extent", "rule_name", "severity", "script_path", "function_name",
        "subject", "suggested_corrections"] json with
    | [message, extent, ruleName, severity, scriptPath, functionName, subject, corrections] =>
      return {
        message := ← required string? message
        extent := ← required (Extent.ofJson? room) extent
        ruleName := ← required string? ruleName
        severity := ← required (choice? Severity.table false room) severity
        scriptPath := ← optional string? scriptPath
        functionName := ← optional string? functionName
        subject := ← optional string? subject
        corrections := ← defaulting [] (list? Correction.ofJson? room) corrections }
    | _ => none

end HelpAudit
