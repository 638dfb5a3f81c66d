import HelpAudit.Proofs.ReportAgreement
import HelpAudit.Proofs.TreeJson
import HelpAudit.Report.Structured

/-! The report for programs can be read back. Both layouts are texts of one value, in which only the time
    may differ. Its files are read as the reports that the report was made from, its summary as their
    totals: members that are left out stand for their defaults, and nothing is nested deeply. -/

namespace HelpAudit

open Json

/-! ### Records of numbers -/

/-- All numbers of the correction have 64 bits. -/
structure Correction.InWords (c : Correction) : Prop where
  startLine : c.startLine < wordLimit
  endLine : c.endLine < wordLimit
  startColumn : c.startColumn < wordLimit
  endColumn : c.endColumn < wordLimit

/-- All numbers of the finding have 64 bits. -/
structure Diagnostic.InWords (d : Diagnostic) : Prop where
  extent : d.extent.InWords
  corrections : ∀ c ∈ d.corrections, c.InWords

/-- All numbers of the report have 64 bits. -/
def FileReport.InWords (report : FileReport) : Prop := ∀ d ∈ report.diagnostics, d.InWords

/-- All totals have 64 bits. -/
structure ReportTotals.InWords (totals : ReportTotals) : Prop where
  files : totals.files < wordLimit
  filesWithDiagnostics : totals.filesWithDiagnostics < wordLimit
  diagnostics : totals.diagnostics < wordLimit
  failedFiles : totals.failedFiles < wordLimit

/-- Reports can be counted if the files and the findings can. -/
theorem ReportTotals.ofReports_inWords {reports : List FileReport} (hfiles : reports.length < wordLimit)
    (hfindings : (reports.flatMap (·.diagnostics)).length < wordLimit) :
    (ReportTotals.ofReports reports).InWords where
  files := hfiles
  filesWithDiagnostics := Nat.lt_of_le_of_lt (List.length_filter_le _ _) hfiles
  diagnostics := hfindings
  failedFiles := Nat.lt_of_le_of_lt (List.length_filter_le _ _) hfiles

/-! ### Reading back -/

theorem Json.optional_ofOption (text : Option String) :
    optional string? (some (ofOption text)) = some text := by
  cases text <;> rfl

theorem Json.isPlain_ofOption (text : Option String) : (ofOption text).IsPlain := by
  cases text <;> trivial

theorem Json.nesting_ofOption (text : Option String) : (ofOption text).nesting = 0 := by
  cases text <;> simp [ofOption, nesting]

theorem Severity.choice?_word (stored : Bool) (room : Nat) (severity : Severity) :
    choice? Severity.table stored room (.str severity.word) = some severity := by
  cases severity <;> rfl

theorem Correction.readsBack {c : Correction} (h : c.InWords) :
    ReadsBack Correction.ofJson? c.toJson c := by
  obtain ⟨h1, h2, h3, h4⟩ := h
  refine readsBack_obj ?_ (fun _ => rfl) fun room => ?_
  · simp [ArePlainMembers, IsPlain, isPlain_ofOption, h1, h2, h3, h4]
  · simp [Correction.ofJson?, fields?, member?, List.filter_cons, required, optional_ofOption, word?,
      string?, membersNesting, nesting_ofOption, h1, h2, h3, h4]

theorem Diagnostic.readsBack {d : Diagnostic} (h : d.InWords) :
    ReadsBack Diagnostic.ofJson? d.toJson d := by
  have hextent := Extent.readsBack h.extent
  have hcorrections : ReadsBack (list? Correction.ofJson?) (.arr (d.corrections.map Correction.toJson))
      d.corrections := readsBack_map fun c hc => Correction.readsBack (h.corrections c hc)
  refine readsBack_obj ⟨trivial, hextent.plain, trivial, trivial, isPlain_ofOption _, isPlain_ofOption _,
    isPlain_ofOption _, hcorrections.plain, trivial⟩ (fun _ => rfl) fun room => ?_
  simp [Diagnostic.ofJson?, fields?, member?, List.filter_cons, required, defaulting, optional_ofOption,
    string?, Severity.choice?_word, hextent.read, hcorrections.read, bind_ite_some, membersNesting,
    nesting_ofOption, ite_and]

/-- The report on a file is read back, whichever of its members are left out. -/
theorem FileReport.readsBack {report : FileReport} (h : report.InWords) :
    ReadsBack FileReport.ofJson? report.toJson report := by
  have hdiagnostics : ReadsBack (list? Diagnostic.ofJson?)
      (.arr (report.diagnostics.map Diagnostic.toJson)) report.diagnostics :=
    readsBack_map fun d hd => Diagnostic.readsBack (h d hd)
  obtain ⟨path, diagnostics, error⟩ := report
  cases error with
  | none =>
    refine readsBack_obj ⟨trivial, hdiagnostics.plain, trivial⟩ (fun _ => rfl) fun room => ?_
    simp [FileReport.ofJson?, memberIfSome, fields?, member?, List.filter_cons, required, Json.optional,
      string?, hdiagnostics.read, bind_ite_some, membersNesting]
  | some error =>
    refine readsBack_obj ⟨trivial, hdiagnostics.plain, trivial, trivial⟩ (fun _ => rfl) fun room => ?_
    simp [FileReport.ofJson?, memberIfSome, fields?, member?, List.filter_cons, required, Json.optional,
      string?, hdiagnostics.read, bind_ite_some, membersNesting]

/-- The totals in a record of numbers. -/
def ReportTotals.ofJson? (json : Json) : Option ReportTotals := do
  match ← fields? ["files", "files_with_diagnostics", "diagnostics", "failed_files"] json with
  | [files, filesWithDiagnostics, diagnostics, failedFiles] =>
    return {
      files := ← required word? files
      filesWithDiagnostics := ← required word? filesWithDiagnostics
      diagnostics := ← required word? diagnostics
      failedFiles := ← required word? failedFiles }
  | _ => none

theorem ReportTotals.ofJson?_toJson {totals : ReportTotals} (h : totals.InWords) :
    ReportTotals.ofJson? totals.toJson = some totals := by
  obtain ⟨h1, h2, h3, h4⟩ := h
  simp [ReportTotals.ofJson?, ReportTotals.toJson, fields?, member?, List.filter_cons, required, word?, h1,
    h2, h3, h4]

/-! ### Nesting -/

theorem Json.itemsNesting_le {n : Nat} {items : List Json} (h : ∀ item ∈ items, item.nesting ≤ n) :
    itemsNesting items ≤ n := by
  induction items with
  | nil => exact Nat.zero_le n
  | cons item items ih =>
    obtain ⟨hitem, hitems⟩ := List.forall_mem_cons.mp h
    exact Nat.max_le.mpr ⟨hitem, ih hitems⟩

/-- An array is nested one level deeper than its items. -/
theorem Json.nesting_arr_map_le {α : Type} {n : Nat} {toJson : α → Json}
    (h : ∀ a, (toJson a).nesting ≤ n) (items : List α) : (arr (items.map toJson)).nesting ≤ n + 1 := by
  rw [nesting, Nat.add_le_add_iff_right]
  refine itemsNesting_le fun item hitem => ?_
  obtain ⟨a, -, rfl⟩ := List.mem_map.mp hitem
  exact h a

theorem Extent.nesting_toJson (e : Extent) : e.toJson.nesting = 1 := by
  obtain ⟨file, _, _, _, _, _, _, _⟩ := e
  cases file <;> simp [Extent.toJson, memberIfSome, nesting, membersNesting]

theorem Correction.nesting_toJson (c : Correction) : c.toJson.nesting = 1 := by
  simp [Correction.toJson, nesting, membersNesting, nesting_ofOption]

theorem Diagnostic.nesting_toJson_le (d : Diagnostic) : d.toJson.nesting ≤ 3 := by
  have hcorrections := nesting_arr_map_le (fun c => Nat.le_of_eq (Correction.nesting_toJson c))
    d.corrections
  rw [Diagnostic.toJson, nesting]
  simp only [membersNesting, nesting_str, nesting_ofOption, d.extent.nesting_toJson]
  omega

theorem FileReport.nesting_toJson_le (report : FileReport) : report.toJson.nesting ≤ 5 := by
  have hdiagnostics := nesting_arr_map_le Diagnostic.nesting_toJson_le report.diagnostics
  rw [FileReport.toJson, nesting]
  cases report.error with
  | none =>
    simp only [memberIfSome, Option.map_none, List.append_nil, membersNesting, nesting_str]
    omega
  | some error =>
    simp only [memberIfSome, Option.map_some, List.cons_append, List.nil_append, membersNesting,
      nesting_str]
    omega

/-! ### The whole report -/

/-- The value without the member under a key. -/
def Json.without (key : String) : Json → Json
  | .obj members => .obj (members.filter (·.1 ≠ key))
  | json => json

namespace StructuredReport

variable {reports : List FileReport} (hwords : ∀ report ∈ reports, report.InWords)

include hwords

theorem files_readsBack : ReadsBack (list? FileReport.ofJson?)
    (.arr (reports.map FileReport.toJson)) reports :=
  readsBack_map fun report hreport => FileReport.readsBack (hwords report hreport)

theorem isPlain_toJson (htotals : (ReportTotals.ofReports reports).InWords) (time : String) :
    (toJson time reports).IsPlain :=
  ⟨trivial, trivial, trivial, ⟨htotals.files, htotals.filesWithDiagnostics, htotals.diagnostics,
    htotals.failedFiles, trivial⟩, (files_readsBack hwords).plain, trivial⟩

end StructuredReport

/-- The report for programs is read back. Both layouts are texts of values that differ in the time at most,
    and the files and the summary of such a value are the reports and their totals. -/
theorem structured_report_read_back {reports : List FileReport}
    (hwords : ∀ report ∈ reports, report.InWords) (hfiles : reports.length < wordLimit)
    (hfindings : (reports.flatMap (·.diagnostics)).length < wordLimit) (time later : String) :
    ∃ value other, Json.ofText? (StructuredReport.compact time reports) = some value ∧
      Json.ofText? (StructuredReport.pretty later reports) = some other ∧
      value.textAt? "generated_at" = some time ∧ other.textAt? "generated_at" = some later ∧
      value.without "generated_at" = other.without "generated_at" ∧
      ∀ report ∈ [value, other],
        (∀ room, 6 ≤ room →
          report.valueAt? "files" >>= list? FileReport.ofJson? room = some reports) ∧
        report.valueAt? "summary" >>= ReportTotals.ofJson? = some (.ofReports reports) := by
  have htotals := ReportTotals.ofReports_inWords hfiles hfindings
  have hparts : ∀ time, (∀ room, 6 ≤ room → (StructuredReport.toJson time reports).valueAt? "files" >>=
        list? FileReport.ofJson? room = some reports) ∧
      (StructuredReport.toJson time reports).valueAt? "summary" >>= ReportTotals.ofJson? =
        some (.ofReports reports) := by
    intro time
    refine ⟨fun room hroom => ?_, ReportTotals.ofJson?_toJson htotals⟩
    have hread := (StructuredReport.files_readsBack hwords).read room
    rw [if_pos (Nat.le_trans (nesting_arr_map_le FileReport.nesting_toJson_le reports) hroom)] at hread
    exact hread
  refine ⟨_, _, ofText?_written (StructuredReport.isPlain_toJson hwords htotals time) _ List.mem_cons_self,
    ofText?_written (StructuredReport.isPlain_toJson hwords htotals later) _
      (List.mem_cons_of_mem _ List.mem_cons_self), rfl, rfl, rfl, ?_⟩
  simp only [List.forall_mem_cons]
  exact ⟨hparts time, hparts later, fun _ h => absurd h List.not_mem_nil⟩

/-- A finding with a correction, whose texts have quotes, a control character and one outside the basic
    plane, and a file that could not be read. -/
theorem structured_report_read_back_failed :
    let extent : Extent := ⟨some "ü.ps1", 1, 1, 2, 3, 0, 9, "\x01\"\\"⟩
    let finding : Diagnostic := {
      message := "😀", extent := extent, ruleName := "Rule", severity := .parseError, scriptPath := none
      subject := some "a", corrections := [⟨1, 2, 2, 3, "", none, "\n"⟩] }
    let reports : List FileReport :=
      [{ path := "ü.ps1", diagnostics := [finding] }, { path := "", error := some "gone" }]
    ∃ value other, Json.ofText? (StructuredReport.compact "now" reports) = some value ∧
      Json.ofText? (StructuredReport.pretty "then" reports) = some other ∧
      value.textAt? "generated_at" = some "now" ∧ other.textAt? "generated_at" = some "then" ∧
      value.without "generated_at" = other.without "generated_at" ∧
      ∀ report ∈ [value, other],
        (∀ room, 6 ≤ room →
          report.valueAt? "files" >>= list? FileReport.ofJson? room = some reports) ∧
        report.valueAt? "summary" >>= ReportTotals.ofJson? = some ⟨2, 1, 1, 1⟩ := by
  refine structured_report_read_back ?_ (by decide) (by decide) "now" "then"
  simp only [List.forall_mem_cons, FileReport.InWords]
  refine ⟨⟨⟨⟨by decide, by decide, by decide, by decide, by decide, by decide⟩, ?_⟩,
    fun _ h => absurd h List.not_mem_nil⟩, fun _ h => absurd h List.not_mem_nil,
    fun _ h => absurd h List.not_mem_nil⟩
  simp only [List.forall_mem_cons]
  exact ⟨⟨by decide, by decide, by decide, by decide⟩, fun _ h => absurd h List.not_mem_nil⟩

end HelpAudit
