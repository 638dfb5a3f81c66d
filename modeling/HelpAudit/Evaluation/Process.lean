import HelpAudit.Evaluation

/-! Evaluation by a process. The script is the last argument of the interpreter's command line, and
    what the process prints on its standard output are the lines of the answer. -/

namespace HelpAudit

/-- What became of a process that was to be started. -/
inductive ProcessOutcome where
  | notStarted (reason : String)
  /-- The process ended by itself, after some milliseconds, with an exit code or none. -/
  | ended (code : Option Int) (stdout stderr : List UInt8) (milliseconds : Nat)
  /-- The process does not end by itself. -/
  | endless

/-- The programs of a system: what becomes of a program that is started with arguments. They are a
    parameter of everything that evaluates scripts, and nothing is assumed about them. -/
abbrev Programs := (program : String) → (arguments : List String) → ProcessOutcome

/-- The answer that a process gives within a time. No process ends within no time at all. -/
def ProcessOutcome.answer (program : String) (timeoutMs : Nat) : ProcessOutcome → Answer
  | .notStarted reason => .error (.notStarted program reason)
  | .endless => .error (.timedOut (timeoutMs * 1000))
  | .ended code stdout stderr milliseconds =>
    if timeoutMs ≤ milliseconds then .error (.timedOut (timeoutMs * 1000))
    else if code ≠ some 0 then
      .error (.failed code (Text.trim (.ofList (Text.decodeLossy stderr))))
    else match Text.decodeUtf8? stdout with
      | some output => .ok (outputLines output)
      | none => .error (.invalidOutput "the output is not UTF-8")

/-- The evaluator that starts an interpreter for each script. -/
def Evaluator.process (programs : Programs) (program : String) (arguments : List String)
    (timeoutMs : Nat) : Evaluator where
  timeoutMs := timeoutMs
  answer := fun _ script =>
    (programs program (arguments ++ [encodeCommand script])).answer program timeoutMs

end HelpAudit
