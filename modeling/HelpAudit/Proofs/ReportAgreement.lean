import HelpAudit.CommandLine.Run

/-! The reports and the exit code say the same. The log is looked at from the outside, as its readers see
    it: which findings and failures it has is read from the JSON value, and compared with the reports of
    the files. The text for readers, the totals and the exit code are then told by what the log has. -/

namespace HelpAudit

namespace Json

/-- The value of the only member with a key. -/
def valueAt? (key : String) : Json → Option Json
  | .obj members => (member? key members).join
  | _ => none

/-- The items of the array under a key, which may be missing. -/
def itemsAt (key : String) (json : Json) : List Json :=
  match json.valueAt? key with
  | some (.arr items) => items
  | _ => []

def textAt? (key : String) (json : Json) : Option String := json.valueAt? key >>= string?

def natAt? (key : String) (json : Json) : Option Nat :=
  match json.valueAt? key with
  | some (.nat value) => some value
  | _ => none

end Json

namespace SarifReport

/-! ### Reading a log -/

def results (log : Json) : List Json := (log.itemsAt "runs").flatMap (·.itemsAt "results")

def invocations (log : Json) : List Json := (log.itemsAt "runs").flatMap (·.itemsAt "invocations")

def notifications (log : Json) : List Json :=
  (invocations log).flatMap (·.itemsAt "toolExecutionNotifications")

def message? (json : Json) : Option String := json.valueAt? "message" >>= (·.textAt? "text")

def Region.ofJson? (json : Json) : Option Region := do
  return {
    startLine := ← json.natAt? "startLine"
    startColumn := ← json.natAt? "startColumn"
    endLine := ← json.natAt? "endLine"
    endColumn := ← json.natAt? "endColumn" }

/-- A text that takes the place of a region. -/
structure Edit where
  region : Region
  text : String
  deriving DecidableEq

/-- The edit of a fix, which has one. -/
def Edit.ofJson? (fix : Json) : Option Edit :=
  match (fix.itemsAt "artifactChanges").flatMap (·.itemsAt "replacements") with
  | [replacement] => do
    return {
      region := ← replacement.valueAt? "deletedRegion" >>= Region.ofJson?
      text := ← replacement.valueAt? "insertedContent" >>= (·.textAt? "text") }
  | _ => none

def Edit.ofCorrection (c : Correction) : Edit where
  region := {
    startLine := c.startLine, startColumn := c.startColumn, endLine := c.endLine
    endColumn := c.endColumn }
  text := c.text

/-- What a result says: a rule was broken in a region, and some edits would repair it. -/
structure Finding where
  ruleId : String
  message : String
  region : Region
  fixes : List Edit
  deriving DecidableEq

/-- The finding of a result, which has one location. -/
def Finding.ofJson? (result : Json) : Option Finding :=
  match result.itemsAt "locations" with
  | [location] => do
    return {
      ruleId := ← result.textAt? "ruleId"
      message := ← message? result
      region := ← location.valueAt? "physicalLocation" >>= (·.valueAt? "region") >>= Region.ofJson?
      fixes := ← (result.itemsAt "fixes").mapM Edit.ofJson? }
  | _ => none

def Finding.ofDiagnostic (d : Diagnostic) : Finding where
  ruleId := d.ruleName
  message := d.message
  region := {
    startLine := d.extent.startLine, startColumn := d.extent.startColumn
    endLine := d.extent.endLine, endColumn := d.extent.endColumn }
  fixes := d.corrections.map .ofCorrection

/-! ### The parts of a log -/

theorem edit_fix (address : String) (c : Correction) :
    Edit.ofJson? (fix address c) = some (.ofCorrection c) := by
  rfl

/-- The members of a result that are always there. -/
theorem valueAt?_result {key : String} (hfixes : key ≠ "fixes") (hproperties : key ≠ "properties")
    (path : String) (d : Diagnostic) :
    (result path d).valueAt? key = (Json.obj [("ruleId", .str d.ruleName),
      ("level", .str (level d.severity)), ("message", message d.message),
      ("locations", .arr [.obj [("physicalLocation", .obj [
        ("artifactLocation", artifact (uri (d.scriptPath.getD path))),
        ("region", (Region.ofExtent d.extent).toJson)])]])]).valueAt? key := by
  -- the members that may be missing have other keys
  have hfiltered : (memberUnlessEmpty "fixes" (d.corrections.map
      (fix (uri (d.scriptPath.getD path))))).filter (·.1 = key) = [] := by
    cases d.corrections <;> simp [memberUnlessEmpty, hfixes.symm]
  simp only [result, Json.valueAt?, Json.member?, List.filter_append, hfiltered]
  cases properties d <;> simp [hproperties.symm]

theorem itemsAt_fixes (path : String) (d : Diagnostic) :
    (result path d).itemsAt "fixes" = d.corrections.map (fix (uri (d.scriptPath.getD path))) := by
  simp only [result, Json.itemsAt, Json.valueAt?, Json.member?]
  cases properties d <;> cases d.corrections <;> simp [memberUnlessEmpty]

/-- A result is read as the finding it was made from. -/
theorem finding_result (path : String) (d : Diagnostic) :
    Finding.ofJson? (result path d) = some (.ofDiagnostic d) := by
  have hedits : (d.corrections.map (fix (uri (d.scriptPath.getD path)))).mapM Edit.ofJson? =
      some (d.corrections.map .ofCorrection) := by
    induction d.corrections with
    | nil => rfl
    | cons c cs ih => simp [edit_fix, ih]
  rw [Finding.ofJson?, itemsAt_fixes, hedits, Json.itemsAt, message?, Json.textAt?,
    valueAt?_result (by decide) (by decide), valueAt?_result (by decide) (by decide),
    valueAt?_result (by decide) (by decide)]
  rfl

variable (tool : Tool) (rules : List RuleInfo) (time : String) (reports : List FileReport)

theorem results_toJson : results (toJson tool rules time reports) =
    reports.flatMap fun report => report.diagnostics.map (result report.path) := by
  simp [results, toJson, Json.itemsAt, Json.valueAt?, Json.member?]

/-- The log has one invocation. Its notifications are left out when there are none. -/
theorem invocations_toJson : ∃ invocation, invocations (toJson tool rules time reports) = [invocation] ∧
    invocation.valueAt? "executionSuccessful" =
      some (.bool (reports.filterMap notification).isEmpty) ∧
    invocation.itemsAt "toolExecutionNotifications" = reports.filterMap notification := by
  refine ⟨_, rfl, ?_⟩
  cases reports.filterMap notification <;>
    simp [memberUnlessEmpty, Json.itemsAt, Json.valueAt?, Json.member?]

theorem notifications_toJson : notifications (toJson tool rules time reports) =
    reports.filterMap notification := by
  obtain ⟨invocation, hinvocations, -, hnotifications⟩ := invocations_toJson tool rules time reports
  rw [notifications, hinvocations, List.flatMap_singleton, hnotifications]

/-- The totals count the results and the notifications. -/
theorem totals_toJson :
    (ReportTotals.ofReports reports).diagnostics = (results (toJson tool rules time reports)).length ∧
      (ReportTotals.ofReports reports).failedFiles =
        (notifications (toJson tool rules time reports)).length := by
  rw [results_toJson, notifications_toJson]
  constructor
  · simp [ReportTotals.ofReports, List.length_flatMap]
  · simp [ReportTotals.ofReports, List.length_filterMap_eq_countP, List.countP_eq_length_filter,
      notification]

theorem findings_toJson : (results (toJson tool rules time reports)).map Finding.ofJson? =
    (reports.flatMap (·.diagnostics)).map fun d => some (.ofDiagnostic d) := by
  rw [results_toJson, List.map_flatMap, List.map_flatMap]
  simp only [List.map_map, Function.comp_def, finding_result]

theorem messages_toJson : (notifications (toJson tool rules time reports)).map message? =
    reports.filterMap fun report => report.error.map fun error => some s!"{report.path}: {error}" := by
  rw [notifications_toJson, List.map_filterMap]
  congr 1
  funext report
  rw [notification]
  cases report.error with
  | none => rfl
  | some error => rfl

/-- The run succeeded if there is nothing to notify. -/
theorem successes_toJson :
    (invocations (toJson tool rules time reports)).map (·.valueAt? "executionSuccessful") =
      [some (.bool (notifications (toJson tool rules time reports)).isEmpty)] := by
  obtain ⟨invocation, hinvocations, hsuccess, -⟩ := invocations_toJson tool rules time reports
  rw [hinvocations, List.map_singleton, hsuccess, notifications_toJson]

/-- The exit code that a log calls for: 1 when there are results or notifications. -/
def exitCode (log : Json) : Nat := if (results log).isEmpty && (notifications log).isEmpty then 0 else 1

theorem exitCode_toJson :
    exitCode (toJson tool rules time reports) = CommandLine.exitCode reports := by
  obtain ⟨hresults, hnotifications⟩ := totals_toJson tool rules time reports
  simp only [exitCode, CommandLine.exitCode, hresults, hnotifications, List.length_pos_iff,
    Bool.and_eq_true, List.isEmpty_iff]
  by_cases hr : results (toJson tool rules time reports) = [] <;>
    by_cases hn : notifications (toJson tool rules time reports) = [] <;> simp [hr, hn]

end SarifReport

namespace TextReport

/-! ### The plain text -/

/-- The line of a finding without styles. -/
def diagnosticText (d : Diagnostic) : String :=
  s!"  {d.extent.startLine}:{d.extent.startColumn} {d.severity.display} {d.ruleName}" ++
    d.functionName.elim "" (fun name => s!" [{name}]") ++ s!" {d.message}\n"

/-- The section of a file without styles: its path, its error, its findings, and an empty line. -/
def fileText (report : FileReport) : String :=
  s!"{report.path}\n" ++ report.error.elim "" (fun error => s!"  parse error {error}\n") ++
    String.join (report.diagnostics.map diagnosticText) ++ "\n"

/-- The line of the totals without styles. -/
def totalsText (files findings failures : Nat) : String :=
  s!"Summary: {files} file(s), {findings} diagnostic(s)" ++
    (if failures = 0 then "" else s!", {failures} failed") ++ "\n"

/-- Whether there is something to say about a file. -/
def hasEntries (report : FileReport) : Bool := !report.diagnostics.isEmpty || report.error.isSome

theorem toString_text (s : String) : toString s = s := rfl

@[simp] theorem plain_nil : renderSpans false [] = "" := rfl

@[simp] theorem plain_cons (span : Span) (spans : List Span) :
    renderSpans false (span :: spans) = span.text ++ renderSpans false spans := by
  rw [renderSpans, List.flatMap_cons, String.ofList_append, renderSpans]
  exact congrArg (· ++ _) String.ofList_toList

@[simp] theorem plain_append (spans others : List Span) :
    renderSpans false (spans ++ others) = renderSpans false spans ++ renderSpans false others := by
  rw [renderSpans, List.flatMap_append, String.ofList_append, renderSpans, renderSpans]

theorem plain_flatMap {α : Type} (f : α → List Span) (items : List α) :
    renderSpans false (items.flatMap f) =
      String.join (items.map fun item => renderSpans false (f item)) := by
  induction items with
  | nil => rfl
  | cons item items ih => rw [List.flatMap_cons, plain_append, ih, List.map_cons, String.join_cons]

theorem plain_diagnosticLine (d : Diagnostic) :
    renderSpans false (diagnosticLine d) = diagnosticText d := by
  rw [diagnosticLine, diagnosticText]
  cases d.functionName <;> simp [severitySpan, toString_text, String.append_assoc]

-- Texts are associated to the left where a literal is split between two spans: `simp` joins them.
theorem plain_errorLine (error : Option String) :
    renderSpans false ((error.map errorLine).getD []) =
      error.elim "" fun error => s!"  parse error {error}\n" := by
  cases error <;> simp [errorLine, severitySpan, Severity.display, toString_text, ← String.append_assoc]

theorem plain_filePart (report : FileReport) :
    renderSpans false (filePart report) = if hasEntries report then fileText report else "" := by
  have hempty : (report.diagnostics.isEmpty && report.error.isNone) = !hasEntries report := by
    rw [hasEntries, Bool.not_or, Bool.not_not, Option.not_isSome]
  rw [filePart, hempty]
  cases hasEntries report with
  | false => rfl
  | true => simp [fileText, plain_errorLine, plain_flatMap, plain_diagnosticLine, lineEnd, toString_text,
      String.append_assoc]

theorem plain_totalsLine (totals : ReportTotals) : renderSpans false (totalsLine totals) =
    totalsText totals.files totals.diagnostics totals.failedFiles := by
  rw [totalsLine, totalsText]
  by_cases h : totals.failedFiles = 0 <;>
    simp [h, Nat.pos_iff_ne_zero, lineEnd, toString_text, ← String.append_assoc]

/-- The plain report has the sections of the files with something to say, and then the totals. -/
theorem render_plain (reports : List FileReport) : render false reports =
    String.join ((reports.filter hasEntries).map fileText) ++
      totalsText reports.length (ReportTotals.ofReports reports).diagnostics
        (ReportTotals.ofReports reports).failedFiles := by
  have hparts : renderSpans false (reports.flatMap filePart) =
      String.join ((reports.filter hasEntries).map fileText) := by
    rw [plain_flatMap]
    induction reports with
    | nil => rfl
    | cons report reports ih =>
      rw [List.map_cons, String.join_cons, plain_filePart, ih, List.filter_cons]
      split
      · rw [List.map_cons, String.join_cons]
      · rw [String.empty_append]
  rw [render, spans, plain_append, hparts, plain_totalsLine]
  rfl

end TextReport

/-! ### The exit code -/

/-- What is written does not matter to whether it can be written. -/
theorem FileSystem.toBool_write (system : FileSystem) (path : String) (content other : List UInt8) :
    (system.write path content).toBool = (system.write path other).toBool := by
  unfold FileSystem.write
  generalize path.isEmpty = isEmpty
  cases system.find path with
  | ok tree =>
    cases tree with
    | folder entries => cases isEmpty <;> rfl
    | file bytes => cases isEmpty <;> cases system.resolve path <;> rfl
  | error reason =>
    cases reason with
    | notFound => cases isEmpty <;> cases system.newPlace path <;> rfl
    | notFolder => cases isEmpty <;> rfl
    | isFolder => cases isEmpty <;> rfl
    | notText => cases isEmpty <;> rfl

/-- What a run hands over: the bytes it wrote to a file, or those of what it printed. -/
def RunResult.handedOver (result : RunResult) : List UInt8 :=
  match result.written with
  | some (_, bytes) => bytes
  | none => Text.utf8 result.output.toList

namespace CommandLine

/-- The format of an analysis and what it has of each file, unless it ends before it comes to the files. -/
def analyzedFiles (env : Environment) (options : AnalyzeOptions) :
    Option (ReportFormat × List (Option FileReport)) :=
  match ReportFormat.ofName? options.format, loadConfig env options.config, inputFiles env options with
  | some format, .ok config, .ok files =>
    let engine := Engine.new (AnalyzeOptions.override options config) env.programs
    some (format, files.map (fileReport? env engine options.treeJson))
  | _, _, _ => none

/-- The format and the reports of an analysis that comes to all files. -/
def analyzedReports (env : Environment) (options : AnalyzeOptions) :
    Option (ReportFormat × List FileReport) :=
  (analyzedFiles env options).bind fun analysis => (analysis.2.mapM id).map (analysis.1, ·)

/-- Whether an analysis breaks off at one of the files. -/
def breaksOff (env : Environment) (options : AnalyzeOptions) : Bool :=
  (analyzedFiles env options).any fun analysis => none ∈ analysis.2

/-- Whether a report can be printed, or written where the options say. -/
def canHandOver (env : Environment) (options : AnalyzeOptions) : Bool :=
  match options.output with
  | none => true
  | some path => (env.system.write path []).toBool

/-- Whether a report can be written does not depend on its content. -/
theorem canHandOver_of_output {env : Environment} {options : AnalyzeOptions} {path : String}
    (h : options.output = some path) (content : List UInt8) :
    canHandOver env options = (env.system.write path content).toBool := by
  rw [canHandOver, h]
  exact env.system.toBool_write path [] content

/-- A report that can be handed over is, and then the exit code is that of the reports. -/
theorem deliver_spec (env : Environment) (options : AnalyzeOptions) (colored : Bool) (notes : String)
    (format : ReportFormat) (reports : List FileReport) :
    (deliver env colored notes options format reports).code =
        (if canHandOver env options then exitCode reports else 2) ∧
      ∃ c, (deliver env colored notes options format reports).handedOver =
        if canHandOver env options then Text.utf8 (format.render c env.time reports).toList else [] := by
  cases houtput : options.output with
  | none =>
    rw [deliver, canHandOver, houtput]
    exact ⟨rfl, colored, rfl⟩
  | some path =>
    -- whether the file can be written is asked with the bytes of this report
    rw [deliver, canHandOver_of_output houtput (Text.utf8 (format.render false env.time reports).toList),
      houtput]
    simp only
    cases env.system.write path (Text.utf8 (format.render false env.time reports).toList) with
    | ok system => exact ⟨rfl, false, rfl⟩
    | error reason => exact ⟨rfl, false, rfl⟩

/-- An analysis that comes to the files delivers their reports, or breaks off when there is none of one. -/
theorem analyze_of_files {env : Environment} {options : AnalyzeOptions} {format : ReportFormat}
    {found : List (Option FileReport)} (h : analyzedFiles env options = some (format, found))
    (colored : Bool) : ∃ c notes, analyze env colored options =
      (found.mapM id).elim (brokenOff env notes) (deliver env c notes options format) := by
  unfold analyzedFiles at h
  unfold analyze
  split at h
  · rename_i config files hformat hconfig hfiles
    injection h with h
    injection h with hformat' hfound
    subst hformat' hfound
    rw [hformat]
    simp only [hconfig, hfiles, List.mapM_map, Function.id_comp]
    cases files.mapM (fileReport? env (Engine.new (AnalyzeOptions.override options config) env.programs)
      options.treeJson) with
    | none => exact ⟨colored, _, rfl⟩
    | some reports => exact ⟨_, _, rfl⟩
  · cases h

/-- Without files to analyze nothing is handed over, and the exit code is 2. -/
theorem analyze_of_no_files {env : Environment} {options : AnalyzeOptions}
    (h : analyzedFiles env options = none) (colored : Bool) :
    (analyze env colored options).code = 2 ∧ (analyze env colored options).handedOver = [] := by
  unfold analyzedFiles at h
  unfold analyze
  cases hformat : ReportFormat.ofName? options.format with
  | none => exact ⟨rfl, rfl⟩
  | some format =>
    cases hconfig : loadConfig env options.config with
    | error message => exact ⟨rfl, rfl⟩
    | ok config =>
      cases hfiles : inputFiles env options with
      | error message => exact ⟨rfl, rfl⟩
      | ok files =>
        rw [hformat, hconfig, hfiles] at h
        cases h

theorem mapM_id_eq_none_iff {α : Type} (found : List (Option α)) : found.mapM id = none ↔ none ∈ found := by
  induction found with
  | nil => simp
  | cons first found ih =>
    cases first with
    | none => simp
    | some a =>
      rw [List.mapM_cons, List.mem_cons, ← ih]
      cases found.mapM id <;> simp

/-- An analysis that breaks off, or ends before it comes to the files, hands over nothing. -/
theorem analyze_of_none {env : Environment} {options : AnalyzeOptions}
    (h : analyzedReports env options = none) (colored : Bool) :
    (analyze env colored options).code = (if breaksOff env options then 101 else 2) ∧
      (analyze env colored options).handedOver = [] := by
  rw [analyzedReports] at h
  cases hfiles : analyzedFiles env options with
  | none =>
    rw [breaksOff, hfiles]
    exact analyze_of_no_files hfiles colored
  | some analysis =>
    rw [hfiles, Option.bind_some, Option.map_eq_none_iff] at h
    obtain ⟨c, notes, hanalyze⟩ := analyze_of_files hfiles colored
    have hbreaks : breaksOff env options = true := by
      rw [breaksOff, hfiles]
      exact decide_eq_true ((mapM_id_eq_none_iff _).mp h)
    rw [hanalyze, h, hbreaks]
    exact ⟨rfl, rfl⟩

/-- An analysis that is not broken off hands its reports over. -/
theorem analyze_of_some {env : Environment} {options : AnalyzeOptions}
    {analysis : ReportFormat × List FileReport} (h : analyzedReports env options = some analysis)
    (colored : Bool) :
    ∃ c notes, analyze env colored options = deliver env c notes options analysis.1 analysis.2 := by
  obtain ⟨⟨format, found⟩, hfiles, hreports⟩ := Option.bind_eq_some_iff.mp h
  obtain ⟨reports, hfound, rfl⟩ := Option.map_eq_some_iff.mp hreports
  obtain ⟨c, notes, hanalyze⟩ := analyze_of_files hfiles colored
  exact ⟨c, notes, by rw [hanalyze, hfound]; rfl⟩

end CommandLine

/-- The reports in all formats and the exit code say the same. The log has the findings and the failures
    of the files in their order, the plain text has a section for each file with one of them, the totals
    count them, and an analysis that can hand over its report has 1 as its exit code if there are any. One
    that breaks off at a file hands over nothing, as one that does not come to the files. -/
theorem report_formats_agree (tool : Tool) (rules : List RuleInfo) (time : String) :
    (∀ reports : List FileReport,
      let log := SarifReport.toJson tool rules time reports
      let results := SarifReport.results log
      let notifications := SarifReport.notifications log
      results.map SarifReport.Finding.ofJson? =
          (reports.flatMap (·.diagnostics)).map (fun d => some (.ofDiagnostic d)) ∧
        notifications.map SarifReport.message? =
          reports.filterMap (fun report =>
            report.error.map fun error => some s!"{report.path}: {error}") ∧
        (SarifReport.invocations log).map (·.valueAt? "executionSuccessful") =
          [some (.bool notifications.isEmpty)] ∧
        TextReport.render false reports =
          String.join ((reports.filter TextReport.hasEntries).map TextReport.fileText) ++
            TextReport.totalsText reports.length results.length notifications.length ∧
        (ReportTotals.ofReports reports).diagnostics = results.length ∧
        (ReportTotals.ofReports reports).failedFiles = notifications.length) ∧
    ∀ (env : Environment) (colored : Bool) (options : AnalyzeOptions),
      (CommandLine.analyze env colored options).code =
          (CommandLine.analyzedReports env options).elim
            (if CommandLine.breaksOff env options then 101 else 2) (fun analysis =>
            if CommandLine.canHandOver env options then
              SarifReport.exitCode (SarifReport.toJson tool rules time analysis.2)
            else 2) ∧
        ∃ c, (CommandLine.analyze env colored options).handedOver =
          (CommandLine.analyzedReports env options).elim [] fun analysis =>
            if CommandLine.canHandOver env options then
              Text.utf8 (analysis.1.render c env.time analysis.2).toList
            else [] := by
  constructor
  · intro reports
    obtain ⟨hresults, hnotifications⟩ := SarifReport.totals_toJson tool rules time reports
    refine ⟨SarifReport.findings_toJson tool rules time reports,
      SarifReport.messages_toJson tool rules time reports,
      SarifReport.successes_toJson tool rules time reports, ?_, hresults, hnotifications⟩
    rw [TextReport.render_plain, hresults, hnotifications]
  · intro env colored options
    cases h : CommandLine.analyzedReports env options with
    | none =>
      obtain ⟨hcode, hempty⟩ := CommandLine.analyze_of_none h colored
      exact ⟨hcode, false, hempty⟩
    | some analysis =>
      obtain ⟨c, notes, hanalyze⟩ := CommandLine.analyze_of_some h colored
      rw [hanalyze, Option.elim_some, SarifReport.exitCode_toJson]
      exact CommandLine.deliver_spec env options c notes analysis.1 analysis.2

/-- A clean file gives neither results nor notifications, but its report cannot be written into a folder
    that is not there. -/
theorem clean_report_into_missing_folder :
    let env : Environment := {
      system := ⟨.folder [("clean.ps1", .file (Text.utf8 "function f \x7b \x7d\n".toList))], []⟩
      programs := fun _ _ => .endless
      time := id }
    let options : AnalyzeOptions := { paths := ["clean.ps1"], output := some "missing/report.txt" }
    let reports : List FileReport := [{ path := "clean.ps1" }]
    CommandLine.analyzedReports env options = some (.text, reports) ∧
      SarifReport.results (SarifReport.toJson {} [] "" reports) = [] ∧
      SarifReport.notifications (SarifReport.toJson {} [] "" reports) = [] ∧
      (CommandLine.analyze env false options).code = 2 := by
  refine ⟨by decide +kernel, rfl, rfl, by decide +kernel⟩

end HelpAudit
