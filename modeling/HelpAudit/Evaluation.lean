import HelpAudit.Text.Base64
import HelpAudit.Text.Blank
import HelpAudit.Text.Utf16
import HelpAudit.Tree

/-! Evaluation of script fragments. Which parameters a `dynamicparam` block adds is known only when
    it runs, so the analysis hands its text to an evaluator, which answers with the lines that the
    script printed or with the reason why there are none. -/

namespace HelpAudit

/-- Why an evaluation has no lines. -/
inductive EvaluationError where
  | unavailable (reason : String)
  | notStarted (program : String) (reason : String)
  | timedOut (microseconds : Nat)
  /-- The process ended with another exit code than 0, or without one. -/
  | failed (code : Option Int) (stderr : String)
  | invalidOutput (reason : String)
  deriving DecidableEq

/-- The wording of an evaluation error. -/
def EvaluationError.message : EvaluationError → String
  | .unavailable reason => s!"script evaluation is unavailable: {reason}"
  | .notStarted program reason => s!"failed to start '{program}': {reason}"
  | .timedOut microseconds => s!"evaluation timed out after {microseconds / 1000} ms"
  | .failed code stderr =>
    let shown := match code with
      | some code => toString code
      | none => "none"
    s!"evaluation failed (exit code {shown}): {stderr}"
  | .invalidOutput reason => s!"evaluation produced unreadable output: {reason}"

/-- The outcome of one evaluation. -/
abbrev Answer := Except EvaluationError (List String)

/-- An evaluator: how long a script may run, and the answer to a script. The answer may depend on the
    scripts that were evaluated before. -/
structure Evaluator where
  timeoutMs : Nat
  answer : (previous : List String) → (script : String) → Answer

/-- The time a script may run unless told otherwise. -/
def defaultTimeoutMs : Nat := 10000

/-- The evaluator that evaluates nothing. -/
def Evaluator.disabled : Evaluator where
  timeoutMs := defaultTimeoutMs
  answer := fun _ _ => .error (.unavailable "dynamic parameter resolution is disabled")

/-- An evaluator with prepared answers, which finds nothing when they are used up. -/
def Evaluator.prepared (timeoutMs : Nat) (answers : List Answer) : Evaluator where
  timeoutMs := timeoutMs
  answer := fun previous _ => (answers[previous.length]?).getD (.ok [])

/-- Evaluates a script and keeps it in the list of those evaluated. -/
def Evaluator.evaluate (evaluator : Evaluator) (script : String) : StateM (List String) Answer :=
  fun previous => (evaluator.answer previous script, previous ++ [script])

/-! ### Scripts and their output -/

/-- The script that prints the names of the parameters which statements of a `dynamicparam` block
    produce: the keys of the dictionary that the block yields. -/
def dynamicScript (statements : List String) : String :=
  "$ErrorActionPreference = 'Stop'\n$__dynamicParameters = @(. \x7b\n" ++
    "\n".intercalate statements ++
    "\n\x7d)\n$__dynamicParameters[0].Keys | Write-Output\n"

/-- The script of a `dynamicparam` block. -/
def NamedBlock.dynamicScript (block : NamedBlock) : String :=
  HelpAudit.dynamicScript (block.statements.map (·.extent.text))

/-- The lines of an output that are not blank, without blanks at their ends. -/
def outputLines (output : List Char) : List String :=
  (((Text.lines output).map Text.trimBoth).filter (!·.isEmpty)).map .ofList

/-- A script in the form in which it is passed on a command line: UTF-16 in base64. -/
def encodeCommand (script : String) : String :=
  .ofList (Text.base64 (Text.utf16 .littleEndian script.toList))

end HelpAudit
