/-! What can be asked of the tool on its command line. -/

namespace HelpAudit

/-- An analysis of files and folders. -/
structure AnalyzeOptions where
  paths : List String
  recursive : Bool := false
  format : String := "text"
  output : Option String := none
  config : Option String := none
  noDynamic : Bool := false
  timeoutMs : Option Nat := none
  interpreter : Option String := none
  /-- The inputs are stored trees instead of scripts. -/
  treeJson : Bool := false
  deriving DecidableEq

/-- What is to be done. -/
inductive Request where
  | analyze (options : AnalyzeOptions)
  | listRules (config : Option String)
  | generateConfig (output : String)
  | dumpTree (file : String) (helpInfo : Bool)
  deriving DecidableEq

/-- The files and folders that a request reads. -/
def Request.inputs : Request → List String
  | .analyze options => options.paths ++ options.config.toList
  | .listRules config => config.toList
  | .generateConfig _ => []
  | .dumpTree file _ => [file]

/-- The file that a request writes. -/
def Request.output? : Request → Option String
  | .analyze options => options.output
  | .generateConfig output => some output
  | .listRules _ => none
  | .dumpTree .. => none

/-- A command line that makes sense. -/
structure Invocation where
  request : Request
  noColor : Bool := false
  deriving DecidableEq

/-- Why a command line asks for nothing to be done. -/
inductive Refusal where
  | usage
  | help
  | version
  deriving DecidableEq

end HelpAudit
