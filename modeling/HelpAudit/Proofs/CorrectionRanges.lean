import HelpAudit.Proofs.LinesAndColumns
import HelpAudit.Proofs.NodeEdges
import HelpAudit.Proofs.ParameterFindings
import HelpAudit.Proofs.ReportAgreement
import HelpAudit.Proofs.SessionAccounts
import HelpAudit.Proofs.TreeText

/-! Where corrections go. A finding is about a function that was parsed, so its extent starts with a
    keyword. The keyword has more than one letter and no line end, hence the next column is the place of
    its second letter, and the correction covers what is between that place and the end of the function's
    body. No column is so large that the next one does not exist. -/

namespace HelpAudit

open Json (wordLimit)

/-! ### Positions -/

/-- The next column on the line is behind the next character, unless that is a line feed. -/
theorem Position.ofOffset_next (before after : List Char) {c : Char} (h : c ≠ '\n') :
    let p := Position.ofOffset (before ++ c :: after) (Text.byteLength before)
    Position.ofOffset (before ++ c :: after) (Text.byteLength before + c.utf8Size) =
      ⟨p.line, p.column + 1, p.offset + c.utf8Size⟩ := by
  have hsize : Text.byteLength before + c.utf8Size = Text.byteLength (before ++ [c]) := by
    rw [Text.byteLength_append]
    rfl
  have hsplit : before ++ c :: after = (before ++ [c]) ++ after := by
    rw [List.append_assoc, List.singleton_append]
  simp only [Position.ofOffset_append]
  rw [hsplit, hsize, Position.ofOffset_append, Text.lastLine_concat, if_neg h, List.length_append,
    List.count_append, List.count_singleton, if_neg (by simpa using h), ← hsize]
  rfl

/-! ### The keyword of a function -/

/-- The first letter of a keyword is no line feed, and another one follows. -/
theorem Token.IsKeyword.letters {t : Token} {word : Keyword} (h : t.IsKeyword word) :
    ∃ first second letters, t.value.toList = first :: second :: letters ∧ first ≠ '\n' := by
  obtain ⟨a, b, others, hword, hfeed⟩ : ∃ a b others, word.text.toList = a :: b :: others ∧
      Lexeme.folds a '\n' = false := by
    cases word with
    | declare kind => cases kind <;> exact ⟨_, _, _, rfl, by decide⟩
    | param => exact ⟨_, _, _, rfl, by decide⟩
    | block kind => cases kind <;> exact ⟨_, _, _, rfl, by decide⟩
  -- the keyword's own letters are fixed, the token's are spellings of them in any case
  have hspelled := Lexeme.mem_anyCase.mp h.2
  rw [hword] at hspelled
  generalize t.value.toList = text at hspelled ⊢
  cases text with
  | nil => cases hspelled
  | cons first text =>
    rw [Lexeme.afterFolded] at hspelled
    split at hspelled
    · rename_i hfirst
      cases text with
      | nil => cases hspelled
      | cons second letters =>
        refine ⟨first, second, letters, rfl, ?_⟩
        rintro rfl
        rw [hfeed] at hfirst
        cases hfirst
    · cases hspelled

/-- The second character of the token stands at the offset. -/
def Token.SecondAt (source : List Char) (t : Token) (offset : Nat) : Prop :=
  ∃ before first second after, source = before ++ first :: second :: after ∧
    [first, second] <+: t.value.toList ∧ Text.byteLength before = t.start ∧
    Text.byteLength (before ++ [first]) = offset

/-- The column of a keyword's second character is the next one, and the text is longer than that. -/
theorem Token.IsKeyword.exists_secondAt {source : List Char} {t : Token} {word : Keyword}
    (h : t.IsKeyword word) (hstands : t.StandsIn source) : ∃ second, t.SecondAt source second ∧
      t.start < second ∧ second < t.stop ∧ Text.IsBoundary source second ∧
      (Position.ofOffset source second).line = (Position.ofOffset source t.start).line ∧
      (Position.ofOffset source second).column = (Position.ofOffset source t.start).column + 1 ∧
      (Position.ofOffset source second).column ≤ Text.byteLength source := by
  obtain ⟨first, second, letters, hletters, hfeed⟩ := h.letters
  obtain ⟨before, after, hsource, hbefore⟩ := hstands.placed
  have hstop := hstands.sized
  have hfirst := first.utf8Size_pos
  have hsecond := second.utf8Size_pos
  rw [hletters, Text.byteLength_cons, Text.byteLength_cons] at hstop
  rw [hletters] at hsource
  replace hsource : source = before ++ first :: second :: (letters ++ after) := by
    rw [hsource]
    simp
  have hoffset : Text.byteLength (before ++ [first]) = t.start + first.utf8Size := by
    rw [Text.byteLength_append, hbefore]
    rfl
  have hnext := Position.ofOffset_next before (second :: (letters ++ after)) hfeed
  rw [← hsource, hbefore] at hnext
  refine ⟨t.start + first.utf8Size, ⟨before, first, second, letters ++ after, hsource, ?_, hbefore, hoffset⟩,
    by omega, by omega, ?_, by rw [hnext], by rw [hnext], ?_⟩
  · rw [hletters]
    exact ⟨letters, rfl⟩
  · exact ⟨before ++ [first], second :: (letters ++ after), by simp [hsource], hoffset⟩
  · -- the characters before it on its line take a byte each, at least
    have hplace := Position.ofOffset_append before (first :: second :: (letters ++ after))
    rw [← hsource, hbefore] at hplace
    have hline := (Text.lastLine_suffix before).length_le
    have hlength := Text.length_le_byteLength before
    rw [hnext, hplace, hsource, Text.byteLength_append, Text.byteLength_cons, Text.byteLength_cons]
    simp only
    omega

/-! ### Corrections -/

/-- The correction takes the place of what stands between two offsets, which is not nothing. -/
structure Correction.Covers (source : List Char) (start stop : Nat) (c : Correction) : Prop where
  startLine : c.startLine = (Position.ofOffset source start).line
  startColumn : c.startColumn = (Position.ofOffset source start).column
  endLine : c.endLine = (Position.ofOffset source stop).line
  endColumn : c.endColumn = (Position.ofOffset source stop).column
  ordered : (Position.ofOffset source start).Precedes (Position.ofOffset source stop)

/-- The finding stands at a function of the script, and its only correction covers the function without
    the first letter of the keyword. The log has a fix for the same region. -/
structure Diagnostic.IsCorrected (script : Script) (d : Diagnostic) (keyword name close : Token)
    (second : Nat) (c : Correction) : Prop where
  declared : ∃ kind before after, script.tokens = before ++ keyword :: name :: after ∧
    keyword.IsKeyword (.declare kind)
  named : d.functionName = some name.value
  closed : close.IsMark (.closing .brace) "\x7d"
  extent : d.extent.RunsBetween script keyword close
  only : d.corrections = [c]
  letter : keyword.SecondAt script.source second
  covers : c.Covers script.source second close.stop
  inside : d.extent.start.Precedes (Position.ofOffset script.source second) ∧
    d.extent.stop = Position.ofOffset script.source close.stop
  fixed : ∀ path, ∃ found, SarifReport.Finding.ofJson? (SarifReport.result path d) = some found ∧
    found.fixes.map (·.region) = [⟨c.startLine, c.startColumn, c.endLine, c.endColumn⟩]

namespace ParameterDocumentation

/-- A function that was declared can be corrected, and so are the findings about it. -/
theorem noted_isCorrected {script : Script} (hp : script.IsPlaced)
    (hsize : Text.byteLength script.source < wordLimit) {f : FunctionDefinition}
    (hdeclared : f.IsDeclared script) (hexact : f.extent.IsExact script.source script.file)
    (file : Option String) (parameter : String) : Correctable f ∧ ∃ keyword name close second,
      (noted f file parameter).IsCorrected script keyword name close second (suggested f) := by
  obtain ⟨before, keyword, name, after, opener, close, htokens, hkeyword, hname, hruns, -, hclose⟩ :=
    hdeclared
  have hfirst := hp.standsIn keyword (hruns.tokens.subset List.mem_cons_self)
  have hlast := hp.standsIn close (hruns.tokens.subset (List.mem_cons_of_mem _ List.mem_cons_self))
  -- the closing brace is a later token, so the second letter comes before its end
  have hle : keyword.stop ≤ close.start :=
    (List.pairwise_cons.mp (hp.spaced.sublist hruns.tokens)).1 close List.mem_cons_self
  obtain ⟨second, hsecond, hafter, hbefore, hboundary, hline, hcolumn, hbound⟩ :=
    hkeyword.exists_secondAt hfirst
  have hstart := hexact.start
  have hstop := hexact.stop
  rw [hruns.start] at hstart
  rw [hruns.stop] at hstop
  have hordered := Position.precedes_of_lt hboundary hlast.stop_boundary
    (Nat.lt_of_lt_of_le hbefore (Nat.le_trans hle (Nat.le_of_lt hlast.nonempty)))
  -- the next column is that of the second letter, and no column exceeds the size of the source
  rw [← hstart] at hline hcolumn
  rw [hcolumn] at hbound
  refine ⟨Nat.lt_of_le_of_lt hbound hsize, keyword, name, close, second,
    ⟨f.kind, before, after, htokens, hkeyword⟩, congrArg some hname, hclose, hruns, rfl, hsecond,
    ⟨hline.symm, hcolumn.symm, ?_, ?_, hordered⟩, ⟨?_, hstop⟩, ?_⟩
  · rw [← hstop]
    rfl
  · rw [← hstop]
    rfl
  · change f.extent.start.Precedes _
    rw [hstart]
    exact Position.precedes_of_lt hfirst.start_boundary hboundary hafter
  · exact fun path => ⟨_, SarifReport.finding_result path _, rfl⟩

/-- Each finding about a function is the one for some parameter, with its correction. -/
theorem Reports.exists_finding {f : FunctionDefinition} {file : Option String} {names : List String}
    {found : List Diagnostic} (h : Reports f file names found) : ∀ d ∈ found, ∃ parameter,
      finding f file parameter = .ok d ∧ d = noted f file parameter := by
  obtain ⟨places, -, -, hmade⟩ := h.first
  have hnames : (places.map (·.2)).mapM (finding f file) = .ok found := by
    rw [List.mapM_map]
    exact hmade
  intro d hd
  rw [mapM_finding] at hnames
  split at hnames
  · rename_i hdue
    cases hnames
    obtain ⟨parameter, hparameter, rfl⟩ := List.mem_map.mp hd
    have hfits : Correctable f := hdue.resolve_left (List.ne_nil_of_mem hparameter)
    exact ⟨parameter, finding_of_correctable hfits parameter, rfl⟩
  · cases hnames

/-- Every finding is about a function of the script. -/
theorem ReportsAll.exists_finding {file : Option String} {fs : List FunctionDefinition}
    {answers : List Answer} {found : List Diagnostic} (h : ReportsAll file fs answers found) :
    ∀ d ∈ found, ∃ f ∈ fs, ∃ parameter, finding f file parameter = .ok d ∧ d = noted f file parameter := by
  induction h with
  | nil => exact fun _ h => absurd h List.not_mem_nil
  | @cons f fs answers rest found others _ hreports _ ih =>
    intro d hd
    rcases List.mem_append.mp hd with hd | hd
    · obtain ⟨parameter, hmade⟩ := hreports.exists_finding d hd
      exact ⟨f, List.mem_cons_self, parameter, hmade⟩
    · obtain ⟨f, hf, hmade⟩ := ih d hd
      exact ⟨f, List.mem_cons_of_mem _ hf, hmade⟩

/-- An engine with this rule alone breaks off where the rule does. Otherwise it finds what the rule finds,
    or nothing when the rule is off. -/
theorem analyze_reportsAll {engine : Engine} {evaluator : Evaluator}
    (hengine : engine.registry.rules = [rule evaluator]) (clock : String → UInt64) (root : ScriptBlock)
    (file : Option String) :
    (engine.config.isEnabled info.name = true ∧ SomeOverflows evaluator [] (functionsIn root) ∧
      (engine.analyze clock (some root) file).outcome = .error .overflow) ∨
    (¬ (engine.config.isEnabled info.name = true ∧ SomeOverflows evaluator [] (functionsIn root)) ∧
      ∃ found, (engine.analyze clock (some root) file).outcome = .ok found ∧
        (found = [] ∨ ∃ answers, ReportsAll file (functionsIn root) answers found)) := by
  have hname : (rule evaluator).name = info.name := rfl
  rw [Engine.analyze_single hengine, hname]
  by_cases hon : engine.config.isEnabled info.name = true
  · rw [if_pos hon]
    by_cases hover : SomeOverflows evaluator [] (functionsIn root)
    · exact .inl ⟨hon, hover, rule_outcome_of_someOverflows file hover⟩
    · obtain ⟨found, hfound, hreports⟩ := rule_outcome_of_not_someOverflows file hover
      exact .inr ⟨fun h => hover h.2, found, hfound, .inr ⟨_, hreports⟩⟩
  · rw [if_neg hon]
    exact .inr ⟨fun h => hon h.1, [], rfl, .inl rfl⟩

/-- In every source that parses, each finding of the rule has one correction. It covers the function from
    the second letter of its keyword to its closing brace, within the finding's extent and not empty, and
    the log has a fix for the same region. -/
theorem corrections_cover_functions {engine : Engine} {evaluator : Evaluator}
    (hengine : engine.registry.rules = [rule evaluator]) (clock : String → UInt64) {source : String}
    {file : Option String} {root : ScriptBlock} (hsize : source.utf8ByteSize < wordLimit)
    (h : parse source file = .ok root) : ∃ tokens found,
      tokenize (withoutMark source.toList) = .ok tokens ∧
      (engine.analyzeSource clock source file).outcome = .ok found ∧
      ∀ d ∈ found, ∃ keyword name close second c,
        d.IsCorrected ⟨withoutMark source.toList, file, tokens⟩ keyword name close second c := by
  obtain ⟨tokens, htokens, hread⟩ := parse_eq_ok h
  have hp := tokenize_isPlaced file htokens
  have hlaid := ReadsBlock.laidOut_whole hp hread
  have hbelow := hread.allRead (List.suffix_refl _)
  -- the root is no function, so a function of the tree was read below it
  have hcorrected : ∀ f ∈ functionsIn root, ∀ parameter, Correctable f ∧ ∃ keyword name close second,
      (noted f file parameter).IsCorrected ⟨withoutMark source.toList, file, tokens⟩ keyword name close second
        (suggested f) := by
    intro f hf parameter
    obtain ⟨node, hnode, hsome⟩ := List.mem_filterMap.mp hf
    obtain rfl : node = .functionDefinition f := by
      cases node <;> cases hsome
      rfl
    have hmem := hnode
    rw [Node.preorder_eq] at hmem
    rcases List.mem_cons.mp hmem with hroot | hmem
    · cases hroot
    obtain ⟨child, hchild, hmem⟩ := List.mem_flatMap.mp hmem
    have hdeclared : f.IsDeclared ⟨withoutMark source.toList, file, tokens⟩ :=
      Node.IsRead.hasEdges htokens (hbelow child hchild _ hmem)
    exact noted_isCorrected hp (Nat.lt_of_le_of_lt (byteLength_withoutMark_le source) hsize) hdeclared
      (hlaid _ hnode).exact file parameter
  rcases analyze_reportsAll hengine clock root file with ⟨-, hover, -⟩ | ⟨-, found, houtcome, hfound⟩
  · exact absurd hover (not_someOverflows fun f hf => (hcorrected f hf "").1)
  refine ⟨tokens, found, htokens, by rw [Engine.analyzeSource, h]; exact houtcome, fun d hd => ?_⟩
  rcases hfound with rfl | ⟨answers, hreports⟩
  · cases hd
  obtain ⟨f, hf, parameter, -, rfl⟩ := hreports.exists_finding d hd
  obtain ⟨-, keyword, name, close, second, hcorrect⟩ := hcorrected f hf parameter
  exact ⟨keyword, name, close, second, _, hcorrect⟩

/-- A keyword with a Kelvin sign, behind a letter of two bytes on its line. -/
theorem corrections_cover_functions_workflow :
    let engine : Engine := ⟨{}, ⟨[rule .disabled]⟩, []⟩
    let source := "'ü'; Wor\u212aflow f($x) \x7b\n  $x \x7d"
    ∃ tokens found, tokenize (withoutMark source.toList) = .ok tokens ∧
      (engine.analyzeSource (fun _ => 0) source none).outcome = .ok found ∧
      found.map (fun d => d.corrections.map fun c =>
        (c.startLine, c.startColumn, c.endLine, c.endColumn)) = [[(1, 7, 2, 7)]] ∧
      ∀ d ∈ found, ∃ keyword name close second c,
        d.IsCorrected ⟨withoutMark source.toList, none, tokens⟩ keyword name close second c := by
  intro engine source
  obtain ⟨root, hroot, -⟩ := exists_ok_of_any (x := parse source none) (p := fun _ => true)
    (by decide +kernel)
  obtain ⟨tokens, found, htokens, hfound, hcorrected⟩ :=
    @corrections_cover_functions engine .disabled rfl (fun _ => 0) _ _ _ (by decide +kernel) hroot
  refine ⟨tokens, found, htokens, hfound, ?_, hcorrected⟩
  have hranges : (engine.analyzeSource (fun _ => 0) source none).outcome.toOption.map
      (fun found => found.map fun d => d.corrections.map fun c =>
        (c.startLine, c.startColumn, c.endLine, c.endColumn)) = some [[(1, 7, 2, 7)]] := by
    decide +kernel
  rw [hfound] at hranges
  exact Option.some.inj hranges

end ParameterDocumentation

end HelpAudit
