import HelpAudit.CommentHelp.Reader
import HelpAudit.Evaluation
import HelpAudit.Rule

/-! The rule that every parameter of a function is documented in the function's help. The parameters
    of a function are those in parentheses after its name, those of every parameter block anywhere in
    it, and those that its `dynamicparam` blocks produce when they run. -/

namespace HelpAudit.ParameterDocumentation

/-- The rule's description. -/
def info : RuleInfo where
  name := "PSMissingParameterDocumentation"
  commonName := "Missing Parameter Documentation"
  description := "Every parameter of a function should be documented with a .PARAMETER entry in its " ++
    "comment-based help."
  severity := .warning
  origin := .builtin
  sourceName := "PS"

/-- The message about an undocumented parameter. -/
def message (parameter : String) : String :=
  s!"Parameter '{parameter}' is missing documentation in the comment-based help."

/-! ### The parameters of a function -/

/-- The names that are declared in the text, in the order of declaration and as often as they are. -/
def declaredNames (f : FunctionDefinition) : List String :=
  let blocks := ((Node.functionDefinition f).visited true).filterMap fun
    | .paramBlock block => some block
    | _ => none
  (f.parameters.getD [] ++ blocks.flatMap (·.parameters)).map (·.name)

/-- The `dynamicparam` blocks anywhere in a function. -/
def dynamicBlocks (f : FunctionDefinition) : List NamedBlock :=
  ((Node.functionDefinition f).visited true).filterMap fun
    | .namedBlock block => if block.kind = .dynamicParamBlock then some block else none
    | _ => none

/-- The names that a `dynamicparam` block produces. One that fails produces none. -/
def blockNames (evaluator : Evaluator) (block : NamedBlock) : StateM (List String) (List String) := do
  match ← evaluator.evaluate block.dynamicScript with
  | .ok names => return names
  | .error _ => return []

/-- The names that the `dynamicparam` blocks of a function produce. -/
def dynamicNames (evaluator : Evaluator) (f : FunctionDefinition) :
    StateM (List String) (List String) := do
  return (← (dynamicBlocks f).mapM (blockNames evaluator)).flatten

/-- The first of all names with the same upper-case form, for each; `seen` holds the forms that have
    occurred before. -/
def firstSpellings (seen : List String) : List String → List String
  | [] => []
  | name :: names =>
    if Text.upper name ∈ seen then firstSpellings seen names
    else name :: firstSpellings (Text.upper name :: seen) names

/-- The parameters of a function, each once: the declared ones, then the dynamic ones. -/
def parameterNames (evaluator : Evaluator) (f : FunctionDefinition) :
    StateM (List String) (List String) := do
  return firstSpellings [] (declaredNames f ++ (← dynamicNames evaluator f))

/-- The names that a help record does not document. -/
def undocumented (names : List String) (help : CommentHelp) : List String :=
  names.filter (!help.documents ·)

/-! ### Findings -/

/-- The column after a column, unless that does not fit in 64 bits. -/
def nextColumn (column : Nat) : Except Failure Nat :=
  if column + 1 < Json.wordLimit then .ok (column + 1) else .error .overflow

/-- The correction of a finding: the place from just after the start of the function to its end. -/
def correction (f : FunctionDefinition) : Except Failure Correction := do
  let startColumn ← nextColumn f.extent.startColumn
  return {
    startLine := f.extent.startLine
    endLine := f.extent.endLine
    startColumn := startColumn
    endColumn := f.extent.endColumn
    text := ""
    file := f.extent.file
    description := "Add parameter documentation" }

/-- The finding that a parameter of a function is not documented. -/
def finding (f : FunctionDefinition) (file : Option String) (parameter : String) :
    Except Failure Diagnostic := do
  let correction ← correction f
  return {
    message := message parameter
    extent := f.extent
    ruleName := info.name
    severity := info.severity.toSeverity
    scriptPath := file
    functionName := some f.name
    subject := some parameter
    corrections := [correction] }

/-- The findings about one function. -/
def checkFunction (evaluator : Evaluator) (file : Option String) (f : FunctionDefinition) :
    StateM (List String) (Except Failure (List Diagnostic)) := do
  return (undocumented (← parameterNames evaluator f) f.help).mapM (finding f file)

/-- The findings about functions, one after the other. The first check that breaks off is the last one. -/
def checkFunctions (evaluator : Evaluator) (file : Option String) : List FunctionDefinition →
    StateM (List String) (Except Failure (List Diagnostic))
  | [] => return .ok []
  | f :: fs => do
    match ← checkFunction evaluator file f with
    | .error failure => return .error failure
    | .ok found => return (← checkFunctions evaluator file fs).map (found ++ ·)

/-- The findings about all functions of a script. -/
def check (evaluator : Evaluator) (root : ScriptBlock) (file : Option String) :
    StateM (List String) (Except Failure (List Diagnostic)) :=
  checkFunctions evaluator file (Node.scriptBlock root).functions

/-- The rule with an evaluator. -/
def rule (evaluator : Evaluator) : Rule where
  info := info
  run := fun root file =>
    let (outcome, scripts) := (check evaluator root file).run []
    ⟨outcome, scripts.map (⟨·, evaluator.timeoutMs⟩)⟩

end HelpAudit.ParameterDocumentation
