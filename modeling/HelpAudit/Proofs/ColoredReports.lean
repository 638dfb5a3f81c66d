import HelpAudit.Proofs.JsonText
import HelpAudit.Report.Text
import Mathlib.Algebra.Ring.Nat

/-! Colours in reports for readers. A terminal takes the sequences `ESC [ codes m` as commands and shows the
    rest. Painting puts such sequences around a text and nothing else, so the rest is what the report says
    without colours, whatever it says; only a text that brings sequences of its own could be mistaken. -/

namespace HelpAudit

/-! ### What a terminal shows -/

/-- Whether the character may stand among the codes of a sequence. -/
def isCodeChar (c : Char) : Bool := c.isDigit || c == ';'

/-- What follows the sequence at the start of a text, if there is one. -/
def afterSequence? : List Char → Option (List Char)
  | '\x1b' :: '[' :: rest =>
    match rest.dropWhile isCodeChar with
    | 'm' :: after => some after
    | _ => none
  | _ => none

theorem length_of_afterSequence? {text after : List Char} (h : afterSequence? text = some after) :
    after.length < text.length := by
  rw [afterSequence?.eq_def] at h
  split at h
  · rename_i rest
    split at h
    · rename_i hdrop
      cases h
      have hle := (List.dropWhile_sublist isCodeChar (l := rest)).length_le
      rw [hdrop] at hle
      simp only [List.length_cons] at hle ⊢
      omega
    · cases h
  · cases h

/-- The text without its sequences. -/
def withoutSequences (text : List Char) : List Char :=
  match text with
  | [] => []
  | c :: cs =>
    match _h : afterSequence? (c :: cs) with
    | some after => withoutSequences after
    | none => c :: withoutSequences cs
termination_by text.length
decreasing_by
  · exact length_of_afterSequence? _h
  · exact Nat.lt_succ_self _

theorem withoutSequences_char {c : Char} (h : c ≠ '\x1b') (cs : List Char) :
    withoutSequences (c :: cs) = c :: withoutSequences cs := by
  have hnone : afterSequence? (c :: cs) = none := by
    rw [afterSequence?.eq_def]
    split
    · rename_i heq
      cases heq
      exact absurd rfl h
    · rfl
  rw [withoutSequences]
  split
  · rename_i heq
    rw [hnone] at heq
    cases heq
  · rfl

/-- Up to its first escape character a text is shown as it is. -/
theorem withoutSequences_append {text : List Char} (h : '\x1b' ∉ text) (rest : List Char) :
    withoutSequences (text ++ rest) = text ++ withoutSequences rest := by
  induction text with
  | nil => rfl
  | cons c text ih =>
    obtain ⟨hc, htext⟩ := not_or.mp (mt List.mem_cons.mpr h)
    rw [List.cons_append, withoutSequences_char (Ne.symm hc), ih htext, List.cons_append]

/-- A sequence is not shown. -/
theorem withoutSequences_sequence {codes : List Char} (h : ∀ c ∈ codes, isCodeChar c = true)
    (rest : List Char) : withoutSequences ('\x1b' :: '[' :: (codes ++ 'm' :: rest)) = withoutSequences rest := by
  have hdrop : (codes ++ 'm' :: rest).dropWhile isCodeChar = 'm' :: rest := by
    rw [List.dropWhile_append_of_pos h, List.dropWhile_cons_of_neg (by decide)]
  have hsome : afterSequence? ('\x1b' :: '[' :: (codes ++ 'm' :: rest)) = some rest := by
    rw [afterSequence?, hdrop]
    rfl
  rw [withoutSequences]
  split
  · rename_i heq
    rw [hsome] at heq
    cases heq
    rfl
  · rename_i heq
    rw [hsome] at heq
    cases heq

/-! ### Painted texts -/

/-- A character of joined pieces is one of the separator or of a piece. -/
theorem mem_of_mem_intercalate {c : Char} {separator : List Char} {pieces : List (List Char)}
    (h : c ∈ separator.intercalate pieces) : c ∈ separator ∨ ∃ piece ∈ pieces, c ∈ piece := by
  induction pieces with
  | nil =>
    rw [List.intercalate_nil] at h
    cases h
  | cons piece pieces ih =>
    cases pieces with
    | nil =>
      rw [List.intercalate_singleton] at h
      exact .inr ⟨piece, List.mem_cons_self, h⟩
    | cons next pieces =>
      rw [List.intercalate_cons_cons, List.mem_append, List.mem_append] at h
      rcases h with (h | h) | h
      · exact .inr ⟨piece, List.mem_cons_self, h⟩
      · exact .inl h
      · rcases ih h with h | ⟨other, hother, hc⟩
        · exact .inl h
        · exact .inr ⟨other, List.mem_cons_of_mem _ hother, hc⟩

theorem isDigit_of_mem_toString {n : Nat} {c : Char} (h : c ∈ (toString n).toList) : c.isDigit = true := by
  rw [Nat.toString_eq_repr, Nat.toList_repr] at h
  exact Nat.isDigit_of_mem_toDigits (by decide) (by decide) h

namespace Style

theorem isCodeChar_of_mem {codes : List Nat} {c : Char}
    (h : c ∈ (";".intercalate (codes.map toString)).toList) : isCodeChar c = true := by
  rw [String.toList_intercalate, List.map_map] at h
  rcases mem_of_mem_intercalate h with h | ⟨piece, hpiece, h⟩
  · obtain rfl : c = ';' := List.mem_singleton.mp h
    rfl
  · obtain ⟨n, -, rfl⟩ := List.mem_map.mp hpiece
    rw [isCodeChar, isDigit_of_mem_toString h, Bool.true_or]

theorem ne_escape_of_isCodeChar {c : Char} (h : isCodeChar c = true) : c ≠ '\x1b' := by
  rintro rfl
  cases h

theorem reopened_of_not_mem (opening : List Char) {text : List Char} (h : '\x1b' ∉ text) :
    reopened opening text = text := by
  induction text with
  | nil => rfl
  | cons c text ih =>
    obtain ⟨hc, htext⟩ := not_or.mp (mt List.mem_cons.mpr h)
    rw [reopened.eq_def]
    split
    · rename_i heq
      cases heq
      exact absurd rfl hc
    · rename_i heq
      cases heq
      rw [ih htext]
    · rename_i heq
      cases heq

/-- A painted text is shown as the text. -/
theorem withoutSequences_paint (style : Style) {text : List Char} (h : '\x1b' ∉ text) (rest : List Char) :
    withoutSequences (style.paint text ++ rest) = text ++ withoutSequences rest := by
  rw [paint]
  split
  · exact withoutSequences_append h rest
  · have hopening : style.opening ++ text ++ reset ++ rest =
        '\x1b' :: '[' :: ((";".intercalate (style.codes.map toString)).toList ++
          'm' :: (text ++ '\x1b' :: '[' :: (['0'] ++ 'm' :: rest))) := by
      simp [opening, reset]
    rw [reopened_of_not_mem _ h, hopening, withoutSequences_sequence fun c hc => isCodeChar_of_mem hc,
      withoutSequences_append h, withoutSequences_sequence (by simp [isCodeChar])]

/-- Two sequences are needed for a style. -/
theorem count_escape_paint (style : Style) {text : List Char} (h : '\x1b' ∉ text) :
    (style.paint text).count '\x1b' = if style.codes.isEmpty then 0 else 2 := by
  rw [paint]
  split
  · exact List.count_eq_zero_of_not_mem h
  · have hcodes : (";".intercalate (style.codes.map toString)).toList.count '\x1b' = 0 :=
      List.count_eq_zero_of_not_mem fun hc => ne_escape_of_isCodeChar (isCodeChar_of_mem hc) rfl
    rw [reopened_of_not_mem _ h, List.count_append, List.count_append, opening, List.count_append,
      List.count_append, hcodes, List.count_eq_zero_of_not_mem h]
    rfl

end Style

/-! ### Spans -/

/-- The text has no escape character. -/
def FreeOfEscapes (text : String) : Prop := '\x1b' ∉ text.toList

instance (text : String) : Decidable (FreeOfEscapes text) := inferInstanceAs (Decidable ('\x1b' ∉ text.toList))

theorem FreeOfEscapes.append {a b : String} (ha : FreeOfEscapes a) (hb : FreeOfEscapes b) :
    FreeOfEscapes (a ++ b) := by
  rw [FreeOfEscapes, String.toList_append, List.mem_append]
  exact not_or.mpr ⟨ha, hb⟩

theorem freeOfEscapes_nat (n : Nat) : FreeOfEscapes (toString n) :=
  fun h => absurd (isDigit_of_mem_toString h) (by decide)

section

variable {spans : List Span}

theorem withoutSequences_renderSpans (h : ∀ span ∈ spans, FreeOfEscapes span.text) :
    withoutSequences (renderSpans true spans).toList = (renderSpans false spans).toList := by
  rw [renderSpans, renderSpans, String.toList_ofList, String.toList_ofList]
  induction spans with
  | nil => rw [List.flatMap_nil, List.flatMap_nil, withoutSequences]
  | cons span spans ih =>
    obtain ⟨hspan, hspans⟩ := List.forall_mem_cons.mp h
    rw [List.flatMap_cons, List.flatMap_cons, Span.render, if_pos rfl, Style.withoutSequences_paint _ hspan,
      ih hspans]
    rfl

theorem count_escape_renderSpans (h : ∀ span ∈ spans, FreeOfEscapes span.text) :
    (renderSpans true spans).toList.count '\x1b' = 2 * spans.countP (!·.style.codes.isEmpty) := by
  rw [renderSpans, String.toList_ofList]
  induction spans with
  | nil => rfl
  | cons span spans ih =>
    obtain ⟨hspan, hspans⟩ := List.forall_mem_cons.mp h
    rw [List.flatMap_cons, List.count_append, ih hspans, List.countP_cons, Span.render, if_pos rfl,
      Style.count_escape_paint _ hspan]
    cases span.style.codes.isEmpty <;> simp [Nat.mul_add, Nat.add_comm]

end

/-! ### Reports -/

/-- The texts of a report that are shown to readers. -/
def FileReport.shownTexts (report : FileReport) : List String :=
  report.path :: report.error.toList ++
    report.diagnostics.flatMap fun d => d.ruleName :: d.message :: d.functionName.toList

/-- The number of styled texts in the part of a file: its path, the word before the error, and the place, the
    severity and the rule of each finding. -/
def FileReport.styledTexts (report : FileReport) : Nat :=
  if report.diagnostics.isEmpty && report.error.isNone then 0
  else 1 + report.error.toList.length + 3 * report.diagnostics.length

namespace TextReport

theorem severitySpan_freeOfEscapes (severity : Severity) : FreeOfEscapes (severitySpan severity).text := by
  cases severity <;> decide

theorem diagnosticLine_freeOfEscapes {d : Diagnostic} (hrule : FreeOfEscapes d.ruleName)
    (hmessage : FreeOfEscapes d.message) (hname : ∀ name ∈ d.functionName, FreeOfEscapes name) :
    ∀ span ∈ diagnosticLine d, FreeOfEscapes span.text := by
  have hplace : FreeOfEscapes s!"{d.extent.startLine}:{d.extent.startColumn}" :=
    ((freeOfEscapes_nat _).append (by decide)).append (freeOfEscapes_nat _)
  have hline : FreeOfEscapes s!" {d.message}\n" :=
    (FreeOfEscapes.append (by decide) hmessage).append (by decide)
  simp only [diagnosticLine, List.forall_mem_cons]
  refine ⟨by decide, hplace, by decide, severitySpan_freeOfEscapes _, by decide, hrule, ?_, hline,
    fun _ h => absurd h List.not_mem_nil⟩
  cases howner : d.functionName with
  | none => decide
  | some name => exact (FreeOfEscapes.append (by decide) (hname name howner)).append (by decide)

theorem errorLine_freeOfEscapes {error : String} (h : FreeOfEscapes error) :
    ∀ span ∈ errorLine error, FreeOfEscapes span.text := by
  have hline : FreeOfEscapes s!" {error}\n" := (FreeOfEscapes.append (by decide) h).append (by decide)
  simp only [errorLine, List.forall_mem_cons]
  exact ⟨by decide, severitySpan_freeOfEscapes _, hline, fun _ h => absurd h List.not_mem_nil⟩

/-- The part of a file brings no escapes but those of the texts it shows. -/
theorem filePart_freeOfEscapes {report : FileReport} (h : ∀ text ∈ report.shownTexts, FreeOfEscapes text) :
    ∀ span ∈ filePart report, FreeOfEscapes span.text := by
  simp only [FileReport.shownTexts, List.cons_append, List.forall_mem_cons, List.forall_mem_append,
    List.forall_mem_flatMap] at h
  obtain ⟨hpath, herror, hfindings⟩ := h
  rw [filePart]
  split
  · exact fun _ h => absurd h List.not_mem_nil
  · simp only [List.cons_append, List.forall_mem_cons, List.forall_mem_append, List.forall_mem_flatMap]
    refine ⟨hpath, by decide, ⟨?_, fun d hd => ?_⟩, by decide, fun _ h => absurd h List.not_mem_nil⟩
    · cases hfailed : report.error with
      | none => exact fun _ h => absurd h List.not_mem_nil
      | some error => exact errorLine_freeOfEscapes (herror error (by simp [hfailed]))
    · obtain ⟨hrule, hmessage, hname⟩ := hfindings d hd
      exact diagnosticLine_freeOfEscapes hrule hmessage fun name hn => hname name (by simpa using hn)

theorem totalsLine_freeOfEscapes (totals : ReportTotals) :
    ∀ span ∈ totalsLine totals, FreeOfEscapes span.text := by
  have htotals : FreeOfEscapes s!" {totals.files} file(s), {totals.diagnostics} diagnostic(s)" :=
    (((FreeOfEscapes.append (by decide) (freeOfEscapes_nat _)).append (by decide)).append
      (freeOfEscapes_nat _)).append (by decide)
  have hfailed : FreeOfEscapes s!"{totals.failedFiles} failed" := (freeOfEscapes_nat _).append (by decide)
  simp only [totalsLine, List.cons_append, List.forall_mem_cons, List.forall_mem_append]
  refine ⟨by decide, htotals, ?_, by decide, fun _ h => absurd h List.not_mem_nil⟩
  split
  · simp only [List.forall_mem_cons]
    exact ⟨by decide, hfailed, fun _ h => absurd h List.not_mem_nil⟩
  · exact fun _ h => absurd h List.not_mem_nil

/-- No text of a report brings an escape character that its files do not. -/
theorem spans_freeOfEscapes {reports : List FileReport}
    (h : ∀ report ∈ reports, ∀ text ∈ report.shownTexts, FreeOfEscapes text) :
    ∀ span ∈ spans reports, FreeOfEscapes span.text := by
  simp only [spans, List.forall_mem_append, List.forall_mem_flatMap]
  exact ⟨fun report hreport => filePart_freeOfEscapes (h report hreport), totalsLine_freeOfEscapes _⟩

/-! ### Styled texts -/

/-- Whether the span has a style. -/
abbrev isStyled (span : Span) : Bool := !span.style.codes.isEmpty

theorem isStyled_plain (text : String) : isStyled ⟨text, {}⟩ = false := rfl

theorem isStyled_severitySpan (severity : Severity) : isStyled (severitySpan severity) = true := by
  cases severity <;> rfl

theorem countP_diagnosticLine (d : Diagnostic) : (diagnosticLine d).countP isStyled = 3 := by
  rw [diagnosticLine]
  cases d.functionName <;> simp [isStyled_plain, isStyled_severitySpan, Style.codes]

theorem countP_diagnosticLines (ds : List Diagnostic) :
    (ds.flatMap diagnosticLine).countP isStyled = 3 * ds.length := by
  induction ds with
  | nil => rfl
  | cons d ds ih =>
    rw [List.flatMap_cons, List.countP_append, countP_diagnosticLine, ih, List.length_cons]
    omega

theorem countP_errorLine (error : Option String) :
    ((error.map errorLine).getD []).countP isStyled = error.toList.length := by
  cases error with
  | none => rfl
  | some error => simp [errorLine, isStyled_plain, isStyled_severitySpan]

theorem countP_filePart (report : FileReport) :
    (filePart report).countP isStyled = report.styledTexts := by
  rw [filePart, FileReport.styledTexts]
  split
  · rfl
  · simp only [List.cons_append, List.countP_cons, List.countP_append, countP_errorLine,
      countP_diagnosticLines]
    simp [lineEnd, isStyled_plain, Style.codes]
    omega

theorem countP_totalsLine (totals : ReportTotals) :
    (totalsLine totals).countP isStyled = if 0 < totals.failedFiles then 2 else 1 := by
  rw [totalsLine]
  split <;> simp [lineEnd, isStyled_plain, Style.codes]

theorem countP_spans (reports : List FileReport) : (spans reports).countP isStyled =
    (reports.map (·.styledTexts)).sum + if 0 < (ReportTotals.ofReports reports).failedFiles then 2 else 1 := by
  rw [spans, List.countP_append, countP_totalsLine, List.countP_flatMap]
  simp only [Function.comp_def, countP_filePart]

theorem failedFiles_pos {reports : List FileReport} :
    0 < (ReportTotals.ofReports reports).failedFiles ↔ reports.any (·.error.isSome) = true := by
  rw [ReportTotals.ofReports, List.length_filter_pos_iff, List.any_eq_true]

/-- Without its sequences a coloured report is the plain one. It has two sequences for each styled text: for
    the label of the totals, for the number of failed files if there are some, and for those of each file. -/
theorem colored_report_shows_plain {reports : List FileReport}
    (h : ∀ report ∈ reports, ∀ text ∈ report.shownTexts, FreeOfEscapes text) :
    withoutSequences (render true reports).toList = (render false reports).toList ∧
    (render true reports).toList.count '\x1b' = 2 * ((reports.map (·.styledTexts)).sum +
      if reports.any (·.error.isSome) then 2 else 1) := by
  have hspans := spans_freeOfEscapes h
  refine ⟨withoutSequences_renderSpans hspans, ?_⟩
  rw [render, count_escape_renderSpans hspans, countP_spans]
  simp only [failedFiles_pos]

/-- A message that looks like a sequence but for the escape character, a finding without a function, and a
    file that failed. -/
theorem colored_report_shows_plain_brackets :
    let extent := Extent.between ⟨8, 1, 0⟩ ⟨10, 2, 0⟩ "" none
    let finding : Diagnostic := ⟨"[31mred[0m", extent, "R;1", .error, none, none, none, []⟩
    let reports : List FileReport := [⟨"[1;4m.ps1", [finding], none⟩, ⟨"clean.ps1", [], none⟩,
      ⟨"bad.ps1", [], some "parse error"⟩]
    withoutSequences (render true reports).toList = (render false reports).toList ∧
    render false reports =
      "[1;4m.ps1\n  8:1 error R;1 [31mred[0m\n\nbad.ps1\n  parse error parse error\n\n" ++
        "Summary: 3 file(s), 1 diagnostic(s), 1 failed\n" ∧
    (render true reports).toList.count '\x1b' = 16 := by
  intro extent finding reports
  have hfree : ∀ report ∈ reports, ∀ text ∈ report.shownTexts, FreeOfEscapes text := by decide
  obtain ⟨hshown, hcount⟩ := colored_report_shows_plain hfree
  exact ⟨hshown, by decide +kernel, hcount⟩

end TextReport

end HelpAudit
