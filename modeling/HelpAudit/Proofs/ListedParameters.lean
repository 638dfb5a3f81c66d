import Mathlib.Data.List.DropRight
import HelpAudit.Proofs.DocumentedFunction
import HelpAudit.Proofs.ParameterComments

/-! Documenting what the rule about undocumented parameters asks for. A comment with a line for each
    name settles the findings about these names and no others, so with a line for every parameter of the
    function nothing is left to report. A name may have blanks, dots, the end mark of a comment or any
    other character inside; it only has to stand on one line and to be free of blanks at its ends. -/

namespace HelpAudit

/-! ### Names that may be listed -/

theorem Text.isTrimmed_of_trimBoth {cs : List Char} (h : trimBoth cs = cs) : IsTrimmed cs := by
  have hstart : trimStart cs = cs := by
    calc trimStart cs
      _ = trimStart (trimStart (trimEnd cs)) := by rw [trimStart_trimEnd, h]
      _ = trimStart (trimEnd cs) := List.dropWhile_idempotent isBlank _
      _ = cs := by rw [trimStart_trimEnd, h]
  rw [trimBoth, hstart] at h
  exact ⟨hstart, h⟩

/-- A name that a line of a help comment can carry. -/
structure IsListable (name : String) : Prop where
  nonempty : name ≠ ""
  trimmed : Text.trim name = name
  oneLine : '\n' ∉ name.toList

theorem IsListable.isArgument {name : String} (h : IsListable name) : IsArgument name.toList := by
  refine ⟨mt String.toList_eq_nil_iff.mp h.nonempty, Text.isTrimmed_of_trimBoth ?_, h.oneLine⟩
  exact String.toList_ofList.symm.trans (congrArg String.toList h.trimmed)

/-! ### The comment -/

/-- The comment with a line for each name. -/
def listingComment (names : List String) : String :=
  "<#\n" ++ String.join (names.map fun name => ".PARAMETER " ++ name ++ "\n") ++ "#>"

theorem listingComment_eq (names : List String) :
    listingComment names = .ofList (parameterComment names) := by
  have htext : listingComment names ++ "\n" = helpText names := String.append_assoc
  have hchars := toList_helpText names
  rw [← htext, String.toList_append] at hchars
  rw [← List.append_cancel_right hchars, String.ofList_toList]

/-- The function with a comment that lists names as its only help. -/
def FunctionDefinition.listing (f : FunctionDefinition) (names : List String) (extent : Extent) :
    FunctionDefinition :=
  { f with helpComments := [⟨[listingComment names], extent⟩] }

/-- The names listed are documented, and beside them those with comments above their parameters. -/
theorem documents_listing_iff (f : FunctionDefinition) {listed : List String}
    (h : ∀ name ∈ listed, IsListable name) (extent : Extent) (name : String) :
    (f.listing listed extent).help.documents name = true ↔ listed ≠ [] ∧
      (Text.upper name ∈ listed.map Text.upper ∨
        ∃ p ∈ f.ownParameters, p.explains (Text.upper name) = true) := by
  have hgroup : (f.listing listed extent).helpComments.findSome?
      (fun group => CommentHelp.ofComments? group.comments) =
        CommentHelp.ofComments? [.ofList (parameterComment listed)] := by
    rw [← listingComment_eq]
    exact List.findSome?_singleton
  rw [documents_help_iff, hgroup]
  rcases ofComments?_parameterComment fun name hname => (h name hname).isArgument with
    ⟨rfl, hnone⟩ | ⟨help, hsome, hkeys⟩
  · simp [hnone]
  · have hne : listed ≠ [] := by
      rintro rfl
      cases hsome
    simp only [hsome, Option.some.injEq, exists_eq_left', ParameterDocumentation.documents_iff, hkeys,
      ne_eq, hne, not_false_eq_true, true_and]
    rfl

namespace ParameterDocumentation

/-! ### What the rule looks at -/

theorem namesDeclaredIn_listing (f : FunctionDefinition) (names : List String) (extent : Extent) :
    namesDeclaredIn (f.listing names extent) = namesDeclaredIn f := by
  rw [namesDeclaredIn, namesDeclaredIn, Node.preorder_eq, Node.preorder_eq (.functionDefinition f)]
  rfl

theorem dynamicScriptsIn_listing (f : FunctionDefinition) (names : List String) (extent : Extent) :
    dynamicScriptsIn (f.listing names extent) = dynamicScriptsIn f := by
  rw [dynamicScriptsIn, dynamicScriptsIn, Node.preorder_eq, Node.preorder_eq (.functionDefinition f)]
  rfl

theorem parameterNames_run (evaluator : Evaluator) (f : FunctionDefinition) (previous : List String) :
    ((parameterNames evaluator f).run previous).1 = firstSpellings [] (namesAfter evaluator previous f) := by
  rw [parameterNames, run_bind, dynamicNames_run, declaredNames_eq, dynamicScripts_eq]
  rfl

theorem nodup_upper_firstSpellings (names : List String) :
    ((firstSpellings [] names).map Text.upper).Nodup := by
  obtain ⟨places, hsorted, hmem, hkept⟩ := firstSpellings_places names []
  rw [hkept, List.map_map, List.Nodup, List.pairwise_map]
  refine hsorted.imp_of_mem fun {a b} ha hb hlt hform => Nat.ne_of_lt hlt ?_
  exact ((hmem _ _).mp ha).1.eq_of_upper ((hmem _ _).mp hb).1 hform

/-- Listing names changes what the rule knows of a function only by what is documented. -/
theorem checkFunction_listing {evaluator : Evaluator} {f : FunctionDefinition} {first second : List String}
    (h : answersTo evaluator first (dynamicScriptsIn f) = answersTo evaluator second (dynamicScriptsIn f))
    (file : Option String) (listed : List String) (extent : Extent) :
    ((checkFunction evaluator file (f.listing listed extent)).run second).1 =
      (undocumented ((parameterNames evaluator f).run first).1 (f.listing listed extent).help).mapM
        (finding f file) := by
  have hnames : ((parameterNames evaluator (f.listing listed extent)).run second).1 =
      ((parameterNames evaluator f).run first).1 := by
    rw [parameterNames_run, parameterNames_run, namesAfter, namesAfter, namesDeclaredIn_listing,
      dynamicScriptsIn_listing, h]
  rw [checkFunction, run_bind, hnames]
  rfl

/-- Among names of different upper-case forms, the undocumented ones are those that are not listed. -/
theorem undocumented_listing {f : FunctionDefinition} {names listed : List String}
    (hnodup : (names.map Text.upper).Nodup) (hnames : ∀ name ∈ names, IsListable name)
    (hleading : ∀ p ∈ f.ownParameters, p.leadingComments = []) (hlisted : listed ⊆ names)
    (extent : Extent) :
    undocumented names (f.listing listed extent).help = names.filter (· ∉ listed) := by
  refine List.filter_congr fun name hname => ?_
  have hexplains : ¬ ∃ p ∈ f.ownParameters, p.explains (Text.upper name) = true := by
    rintro ⟨p, hp, hexplains⟩
    exact (Parameter.explains_iff.mp hexplains).2 (hleading p hp)
  have hdocuments : (f.listing listed extent).help.documents name = true ↔ name ∈ listed := by
    rw [documents_listing_iff f fun name hname => hnames name (hlisted hname)]
    constructor
    · rintro ⟨-, hform | hexplained⟩
      · -- the listed name with this upper-case form is the name itself
        obtain ⟨other, hother, hform⟩ := List.mem_map.mp hform
        rwa [← List.inj_on_of_nodup_map hnodup (hlisted hother) hname hform]
      · exact absurd hexplained hexplains
    · exact fun hname => ⟨List.ne_nil_of_mem hname, .inl (List.mem_map_of_mem hname)⟩
  rw [Bool.eq_iff_iff, Bool.not_eq_true', Bool.eq_false_iff, decide_eq_true_eq]
  exact not_congr hdocuments

/-- Where the evaluator answers a second check as the first one, a comment that lists all parameters of
    a function leaves no findings. One that lists some of them leaves, if no parameter has comments of
    its own, a finding for each of the others, in order; no two names have the same upper-case form. Only
    the function that starts in the last column has no such findings: the check breaks off as long as a
    name is left out. -/
theorem listed_parameters_are_settled (evaluator : Evaluator) (file : Option String)
    (f : FunctionDefinition) (extent : Extent) (first second : List String)
    (hanswers : answersTo evaluator first (dynamicScriptsIn f) =
      answersTo evaluator second (dynamicScriptsIn f))
    (hnames : ∀ name ∈ ((parameterNames evaluator f).run first).1, IsListable name) :
    ((checkFunction evaluator file
      (f.listing ((parameterNames evaluator f).run first).1 extent)).run second).1 = .ok [] ∧
    (((parameterNames evaluator f).run first).1.map Text.upper).Nodup ∧
    ((∀ p ∈ f.ownParameters, p.leadingComments = []) →
      ∀ listed ⊆ ((parameterNames evaluator f).run first).1,
        let others := ((parameterNames evaluator f).run first).1.filter (· ∉ listed)
        let outcome := ((checkFunction evaluator file (f.listing listed extent)).run second).1
        outcome = others.mapM (finding f file) ∧
        (f.extent.startColumn + 1 < Json.wordLimit → ∃ found, outcome = .ok found ∧
          found.map (·.subject) = others.map some ∧
          ∀ d ∈ found, d.extent = f.extent ∧ d.functionName = some f.name) ∧
        (Json.wordLimit ≤ f.extent.startColumn + 1 → others ≠ [] → outcome = .error .overflow)) := by
  have hnodup : (((parameterNames evaluator f).run first).1.map Text.upper).Nodup := by
    rw [parameterNames_run]
    exact nodup_upper_firstSpellings _
  refine ⟨?_, hnodup, fun hleading listed hlisted => ?_⟩
  · rw [checkFunction_listing hanswers]
    have hnone : undocumented ((parameterNames evaluator f).run first).1
        (f.listing ((parameterNames evaluator f).run first).1 extent).help = [] := by
      rw [undocumented, List.filter_eq_nil_iff]
      intro name hname
      rw [Bool.not_eq_true', Bool.not_eq_false, documents_listing_iff f hnames]
      exact ⟨List.ne_nil_of_mem hname, .inl (List.mem_map_of_mem hname)⟩
    rw [hnone]
    rfl
  · rw [checkFunction_listing hanswers, undocumented_listing hnodup hnames hleading hlisted]
    refine ⟨rfl, fun hfits => ⟨_, (mapM_finding _).trans (if_pos (.inr hfits)), ?_, ?_⟩, fun hlast hdue => ?_⟩
    · rw [List.map_map]
      rfl
    · intro d hd
      obtain ⟨name, -, rfl⟩ := List.mem_map.mp hd
      exact ⟨rfl, rfl⟩
    · exact (mapM_finding _).trans (if_neg (not_or.mpr ⟨hdue, Nat.not_lt.mpr hlast⟩))

/-- One name is declared and two come from a block that is evaluated for each check. Their characters
    include a blank, the end mark of a comment and a letter outside ASCII. -/
theorem listed_parameters_are_settled_dynamic : ∃ f evaluator history extent found,
    ((parameterNames evaluator f).run []).1 = ["A", "b c", "ä#>"] ∧
    ((checkFunction evaluator none f).run []).2 = history ∧
    ((checkFunction evaluator none f).run []).1.toOption.map (fun found => found.map (·.subject)) =
      some [some "A", some "b c", some "ä#>"] ∧
    ((checkFunction evaluator none (f.listing ["A", "b c", "ä#>"] extent)).run history).1 = .ok [] ∧
    ((checkFunction evaluator none (f.listing ["ä#>"] extent)).run history).1 = .ok found ∧
    found.map (·.subject) = [some "A", some "b c"] := by
  let extent : Extent := ⟨none, 1, 1, 1, 1, 0, 0, ""⟩
  let f : FunctionDefinition := ⟨"f", .function, extent, some [⟨"A", extent, [], none, []⟩],
    ⟨extent, none, [⟨.dynamicParamBlock, false, extent, []⟩]⟩, []⟩
  let evaluator : Evaluator := .prepared 5 [.ok ["a", "b c", "ä#>"], .ok ["a", "b c", "ä#>"]]
  have hnames : ((parameterNames evaluator f).run []).1 = ["A", "b c", "ä#>"] := by decide +kernel
  have hscripts : dynamicScriptsIn f = [dynamicScript []] := by rw [← dynamicScripts_eq]; rfl
  obtain ⟨hsettled, -, hothers⟩ := listed_parameters_are_settled evaluator none f extent []
    [dynamicScript []] (by rw [hscripts]; rfl) (by
      rw [hnames]
      have hall : ∀ name ∈ ["A", "b c", "ä#>"],
          name ≠ "" ∧ Text.trim name = name ∧ '\n' ∉ name.toList := by decide +kernel
      exact fun name hname => ⟨(hall name hname).1, (hall name hname).2.1, (hall name hname).2.2⟩)
  rw [hnames] at hsettled hothers
  obtain ⟨-, hfits, -⟩ := hothers (by decide) ["ä#>"] (by simp)
  obtain ⟨found, hfound, hsubjects, -⟩ := hfits (by decide)
  exact ⟨f, evaluator, [dynamicScript []], extent, found, hnames, by decide +kernel, by decide +kernel,
    hsettled, hfound, hsubjects⟩

/-- A function in the last column has two parameters. Listing one of them leaves no finding for the
    other. -/
theorem last_column_leaves_no_findings : ∃ f extent,
    ((parameterNames .disabled f).run []).1 = ["a", "b"] ∧
    ((checkFunction .disabled none (f.listing ["a", "b"] extent)).run []).1 = .ok [] ∧
    ((checkFunction .disabled none (f.listing ["a"] extent)).run []).1 = .error .overflow := by
  let extent : Extent := ⟨none, 1, 18446744073709551615, 1, 18446744073709551615, 0, 0, ""⟩
  let f : FunctionDefinition := ⟨"f", .function, extent,
    some [⟨"a", extent, [], none, []⟩, ⟨"b", extent, [], none, []⟩], ⟨extent, none, []⟩, []⟩
  exact ⟨f, extent, by decide +kernel, by decide +kernel, by decide +kernel⟩

end ParameterDocumentation

end HelpAudit
