import Mathlib.Data.List.Forall2
import HelpAudit.Proofs.Derivation
import HelpAudit.Proofs.ParameterFindings

/-! What a failing `dynamicparam` block costs. Which scripts are evaluated, and in which order, does not
    depend on the answers, unless a finding breaks the run off. Of an answer the findings depend only on the
    names in it, and a failure has none; so a block that fails costs its own names, and the answers to later
    blocks stay with them. -/

namespace HelpAudit.ParameterDocumentation

/-- The scripts that are evaluated for a tree: for each function in pre-order those of the
    `dynamicparam` blocks below it in pre-order. -/
def scriptsIn (root : ScriptBlock) : List String := (functionsIn root).flatMap dynamicScriptsIn

/-- The outcome for functions whose `dynamicparam` blocks produce names, one list for each block. -/
def outcomeFor (file : Option String) :
    List FunctionDefinition → List (List String) → Except Failure (List Diagnostic)
  | [], _ => .ok []
  | f :: fs, produced => do
    let blocks := (dynamicScriptsIn f).length
    let names := namesDeclaredIn f ++ (produced.take blocks).flatten
    let found ← (undocumented (firstSpellings [] names) f.help).mapM (finding f file)
    return found ++ (← outcomeFor file fs (produced.drop blocks))

/-! ### Runs of the rule -/

/-- The functions of a list are checked in order, each with the answers to its own scripts. -/
theorem checkFunctions_outcome (evaluator : Evaluator) (file : Option String) :
    ∀ (fs : List FunctionDefinition) (previous : List String),
    ((checkFunctions evaluator file fs).run previous).1 =
      outcomeFor file fs ((answersTo evaluator previous (fs.flatMap dynamicScriptsIn)).map namesIn)
  | [], _ => rfl
  | f :: fs, previous => by
    have hown : ((answersTo evaluator previous (dynamicScriptsIn f)).map namesIn).length =
        (dynamicScriptsIn f).length := by
      rw [List.length_map, length_answersTo]
    rw [List.flatMap_cons, answersTo_append, List.map_append]
    simp only [outcomeFor]
    rw [← hown, List.take_left, List.drop_left, ← List.flatMap_def, ← namesAfter,
      ← checkFunctions_outcome evaluator file fs (previous ++ dynamicScriptsIn f)]
    cases hfound : (undocumented (firstSpellings [] (namesAfter evaluator previous f)) f.help).mapM
      (finding f file) with
    | error failure => rw [checkFunctions_run_error fs hfound]; rfl
    | ok found =>
      rw [checkFunctions_run_ok fs hfound]
      dsimp only
      cases ((checkFunctions evaluator file fs).run (previous ++ dynamicScriptsIn f)).1 <;> rfl

/-- Functions that do not overflow have all their scripts evaluated before those of later functions. -/
theorem checkFunctions_scripts_append {evaluator : Evaluator} (file : Option String)
    (rest : List FunctionDefinition) : ∀ {before : List FunctionDefinition} {previous : List String},
    ¬ SomeOverflows evaluator previous before →
      ((checkFunctions evaluator file (before ++ rest)).run previous).2 =
        ((checkFunctions evaluator file rest).run (previous ++ before.flatMap dynamicScriptsIn)).2
  | [], previous, _ => by rw [List.nil_append, List.flatMap_nil, List.append_nil]
  | f :: before, previous, h => by
    rw [someOverflows_cons, not_or] at h
    obtain ⟨-, found, hfound⟩ := (mapM_finding_undocumented f file (namesAfter evaluator previous f)).resolve_right
      fun hover => h.1 hover.1
    rw [List.cons_append, checkFunctions_run_ok _ hfound, List.flatMap_cons, ← List.append_assoc]
    exact checkFunctions_scripts_append file rest h.2

/-- Some function is the first one that overflows. -/
theorem SomeOverflows.exists_first {evaluator : Evaluator} : ∀ {fs : List FunctionDefinition}
    {previous : List String}, SomeOverflows evaluator previous fs →
      ∃ before f after, fs = before ++ f :: after ∧ ¬ SomeOverflows evaluator previous before ∧
        Overflows f (namesAfter evaluator (previous ++ before.flatMap dynamicScriptsIn) f)
  | [], previous, h => absurd h (not_someOverflows_nil evaluator previous)
  | f :: fs, previous, h => by
    by_cases hover : Overflows f (namesAfter evaluator previous f)
    · exact ⟨[], f, fs, rfl, not_someOverflows_nil evaluator previous,
        by rwa [List.flatMap_nil, List.append_nil]⟩
    · obtain ⟨before, g, after, rfl, hfits, hfirst⟩ :=
        ((someOverflows_cons.mp h).resolve_left hover).exists_first
      rw [List.append_assoc, ← List.flatMap_cons] at hfirst
      exact ⟨f :: before, g, after, rfl, fun hsome => (someOverflows_cons.mp hsome).elim hover hfits, hfirst⟩

/-- What the rule finds depends only on the names in the answers. -/
theorem rule_outcome (evaluator : Evaluator) (root : ScriptBlock) (file : Option String) :
    ((rule evaluator).run root file).outcome =
      outcomeFor file (functionsIn root) ((answersTo evaluator [] (scriptsIn root)).map namesIn) := by
  rw [scriptsIn, ← checkFunctions_outcome, ← functions_eq]
  rfl

section Calls

variable {evaluator : Evaluator} {root : ScriptBlock} (file : Option String)

theorem rule_calls_eq : ((rule evaluator).run root file).calls =
    ((checkFunctions evaluator file (functionsIn root)).run []).2.map (⟨·, evaluator.timeoutMs⟩) := by
  rw [← functions_eq]
  rfl

/-- The rule evaluates the scripts of the tree, whatever the answers, if it does not break off. -/
theorem rule_calls_of_not_someOverflows (h : ¬ SomeOverflows evaluator [] (functionsIn root)) :
    ((rule evaluator).run root file).calls = (scriptsIn root).map (⟨·, evaluator.timeoutMs⟩) := by
  have hall := checkFunctions_scripts_append file [] h
  rw [List.append_nil, List.nil_append] at hall
  rw [rule_calls_eq, hall]
  rfl

/-- If it breaks off at a function, the scripts of that function are the last ones. -/
theorem rule_calls_of_overflows {before after : List FunctionDefinition} {f : FunctionDefinition}
    (hsplit : functionsIn root = before ++ f :: after) (hbefore : ¬ SomeOverflows evaluator [] before)
    (hover : Overflows f (namesAfter evaluator (before.flatMap dynamicScriptsIn) f)) :
    ((rule evaluator).run root file).calls =
      ((before ++ [f]).flatMap dynamicScriptsIn).map (⟨·, evaluator.timeoutMs⟩) := by
  obtain ⟨-, hfailed⟩ := (mapM_finding_undocumented f file
    (namesAfter evaluator (before.flatMap dynamicScriptsIn) f)).resolve_left fun hfits => hfits.1 hover
  rw [rule_calls_eq, hsplit, checkFunctions_scripts_append file _ hbefore, List.nil_append,
    checkFunctions_run_error after hfailed, List.flatMap_append, List.flatMap_singleton]

end Calls

/-! ### Failures -/

/-- The second answer is the first one, or the empty list in the place of a failure. -/
inductive Excused : Answer → Answer → Prop where
  | same (answer : Answer) : Excused answer answer
  | failure (error : EvaluationError) : Excused (.error error) (.ok [])

theorem Excused.namesIn_eq {first second : Answer} (h : Excused first second) :
    namesIn first = namesIn second := by
  cases h <;> rfl

theorem map_namesIn_eq {first second : List Answer} (h : List.Forall₂ Excused first second) :
    first.map namesIn = second.map namesIn := by
  induction h with
  | nil => rfl
  | cons hanswer _ ih => rw [List.map_cons, List.map_cons, hanswer.namesIn_eq, ih]

/-- Answers with the same names lead to the same outcome. -/
theorem outcome_eq_of_excused {evaluator other : Evaluator} {root : ScriptBlock}
    (h : List.Forall₂ Excused (answersTo evaluator [] (scriptsIn root))
      (answersTo other [] (scriptsIn root))) (file : Option String) :
    ((rule evaluator).run root file).outcome = ((rule other).run root file).outcome := by
  rw [rule_outcome, rule_outcome, map_namesIn_eq h]

/-- An evaluator that refuses every script is excused by one that finds nothing. -/
theorem excused_disabled {silent : Evaluator}
    (h : ∀ previous script, silent.answer previous script = .ok []) :
    ∀ scripts previous, List.Forall₂ Excused (answersTo .disabled previous scripts)
      (answersTo silent previous scripts)
  | [], _ => .nil
  | script :: scripts, previous => by
    rw [answersTo, answersTo, h]
    exact .cons (.failure _) (excused_disabled h scripts _)

/-- A `dynamicparam` block that fails costs only its own names. Two evaluators whose answers to the
    scripts of a tree differ only in that failures of the first are empty lists of the second lead to
    the same findings, or both to a run that breaks off at a function in the last column. Every evaluator
    is asked for the scripts of the tree in the same order: for all of them, or for those of the functions
    up to the one where the run breaks off. One that refuses them all leads to what is found when every
    answer is empty. -/
theorem failed_blocks_cost_only_their_names (evaluator other : Evaluator) (root : ScriptBlock)
    (file : Option String)
    (h : List.Forall₂ Excused (answersTo evaluator [] (scriptsIn root))
      (answersTo other [] (scriptsIn root))) :
    (¬ SomeOverflows evaluator [] (functionsIn root) →
      ∃ findings, ((rule evaluator).run root file).outcome = .ok findings ∧
        ((rule other).run root file).outcome = .ok findings) ∧
    (SomeOverflows evaluator [] (functionsIn root) →
      ((rule evaluator).run root file).outcome = .error .overflow ∧
        ((rule other).run root file).outcome = .error .overflow) ∧
    (∀ asked : Evaluator,
      (¬ SomeOverflows asked [] (functionsIn root) →
        ((rule asked).run root file).calls = (scriptsIn root).map (⟨·, asked.timeoutMs⟩)) ∧
      (SomeOverflows asked [] (functionsIn root) →
        ∃ before f after, functionsIn root = before ++ f :: after ∧ ¬ SomeOverflows asked [] before ∧
          Overflows f (namesAfter asked (before.flatMap dynamicScriptsIn) f) ∧
          ((rule asked).run root file).calls =
            ((before ++ [f]).flatMap dynamicScriptsIn).map (⟨·, asked.timeoutMs⟩))) ∧
    ∀ silent : Evaluator, (∀ previous script, silent.answer previous script = .ok []) →
      ((rule .disabled).run root file).outcome = ((rule silent).run root file).outcome ∧
      (¬ SomeOverflows silent [] (functionsIn root) →
        ∃ findings, ((rule silent).run root file).outcome = .ok findings) := by
  have hsame := outcome_eq_of_excused h file
  refine ⟨fun hfits => ?_, fun hover => ?_, fun asked => ⟨rule_calls_of_not_someOverflows file, fun hover => ?_⟩,
    fun silent hsilent => ⟨?_, fun hfits => ?_⟩⟩
  · obtain ⟨findings, hfindings, -⟩ := rule_outcome_of_not_someOverflows file hfits
    exact ⟨findings, hfindings, hsame ▸ hfindings⟩
  · have hfailed := rule_outcome_of_someOverflows file hover
    exact ⟨hfailed, hsame ▸ hfailed⟩
  · obtain ⟨before, f, after, hsplit, hbefore, hfirst⟩ := hover.exists_first
    exact ⟨before, f, after, hsplit, hbefore, hfirst, rule_calls_of_overflows file hsplit hbefore hfirst⟩
  · exact outcome_eq_of_excused (excused_disabled hsilent (scriptsIn root) []) file
  · obtain ⟨findings, hfindings, -⟩ := rule_outcome_of_not_someOverflows file hfits
    exact ⟨findings, hfindings⟩

/-- The block of the inner function is evaluated for each of the two functions around it. The second
    evaluation fails, and the third answer still goes to the inner function. -/
theorem failed_blocks_cost_only_their_names_nested :
    let source := "function F \x7b dynamicparam \x7b $a \x7d " ++
      "end \x7b function G \x7b dynamicparam \x7b $b \x7d \x7d \x7d \x7d"
    ∃ root findings, parse source none = .ok root ∧
      scriptsIn root = [dynamicScript ["$a"], dynamicScript ["$b"], dynamicScript ["$b"]] ∧
      ((rule (.prepared 5 [.ok ["A"], .error (.timedOut 5000), .ok ["B"]])).run root none).outcome =
        .ok findings ∧
      ((rule (.prepared 5 [.ok ["A"], .ok [], .ok ["B"]])).run root none).outcome = .ok findings ∧
      findings.map (fun d => (d.functionName, d.subject)) =
        [(some "F", some "A"), (some "G", some "B")] := by
  intro source
  obtain ⟨root, hroot, hall⟩ := exists_ok_of_any (x := parse source none)
    (p := fun root =>
      (Node.scriptBlock root).functions.flatMap (fun f => (dynamicBlocks f).map (·.dynamicScript)) =
        [dynamicScript ["$a"], dynamicScript ["$b"], dynamicScript ["$b"]] &&
      ((Node.scriptBlock root).functions.all (fun f => Correctable f) &&
      ((rule (.prepared 5 [.ok ["A"], .ok [], .ok ["B"]])).run root none).outcome.toOption.map
        (fun found => found.map fun d => (d.functionName, d.subject)) =
          some [(some "F", some "A"), (some "G", some "B")]))
    (by decide +kernel)
  obtain ⟨hscripts, hrest⟩ := Bool.and_eq_true_iff.mp hall
  obtain ⟨hfit, hfound⟩ := Bool.and_eq_true_iff.mp hrest
  simp only [functions_eq, dynamicScripts_eq, decide_eq_true_eq] at hscripts
  simp only [functions_eq, List.all_eq_true, decide_eq_true_eq] at hfit
  obtain ⟨hfindings, -⟩ := failed_blocks_cost_only_their_names
    (.prepared 5 [.ok ["A"], .error (.timedOut 5000), .ok ["B"]])
    (.prepared 5 [.ok ["A"], .ok [], .ok ["B"]]) root none (by
      rw [scriptsIn, hscripts]
      exact .cons (.same _) (.cons (.failure _) (.cons (.same _) .nil)))
  obtain ⟨findings, hfirst, hsecond⟩ := hfindings (not_someOverflows hfit)
  refine ⟨root, findings, hroot, hscripts, hfirst, hsecond, ?_⟩
  rw [hsecond, decide_eq_true_eq] at hfound
  exact Option.some.inj hfound

/-- Two functions stand in the last column, each with a block. When the first block produces a name, the
    run breaks off: there are no findings, and the second block is not evaluated. -/
theorem last_column_cuts_off_scripts : ∃ root : ScriptBlock,
    scriptsIn root = [dynamicScript [], dynamicScript []] ∧
    ((rule (.prepared 5 [.ok [], .ok []])).run root none).outcome = .ok [] ∧
    ((rule (.prepared 5 [.ok [], .ok []])).run root none).calls =
      [⟨dynamicScript [], 5⟩, ⟨dynamicScript [], 5⟩] ∧
    ((rule (.prepared 5 [.ok ["A"], .ok []])).run root none).outcome = .error .overflow ∧
    ((rule (.prepared 5 [.ok ["A"], .ok []])).run root none).calls = [⟨dynamicScript [], 5⟩] := by
  let extent : Extent := ⟨none, 1, 18446744073709551615, 1, 18446744073709551615, 0, 0, ""⟩
  let f : FunctionDefinition :=
    ⟨"f", .function, extent, none, ⟨extent, none, [⟨.dynamicParamBlock, false, extent, []⟩]⟩, []⟩
  refine ⟨⟨extent, none, [⟨.endBlock, true, extent, [.function f, .function f]⟩]⟩, ?_, ?_, ?_, ?_, ?_⟩
  · rw [scriptsIn, ← functions_eq]
    decide +kernel
  all_goals decide +kernel

end HelpAudit.ParameterDocumentation
