import HelpAudit.CommandLine.Reader
import HelpAudit.CommentHelp.Json
import HelpAudit.CommentHelp.Reader
import HelpAudit.Config.File
import HelpAudit.Discovery
import HelpAudit.Engine.Files
import HelpAudit.Json.Sorted
import HelpAudit.Report.Rendering

/-! What the tool does: from the arguments and the files to what is printed and written. -/

namespace HelpAudit

/-- What surrounds a run of the tool. -/
structure Environment where
  system : FileSystem
  programs : Programs
  /-- Whether texts are coloured unless something forbids it. -/
  colors : Bool := false
  time : ReportTime

/-- What a run of the tool leaves. -/
structure RunResult where
  code : Nat
  output : String := ""
  /-- The lines that tell how it went. -/
  notes : String := ""
  /-- The file that was written, and its bytes. -/
  written : Option (String × List UInt8) := none
  system : FileSystem

namespace CommandLine

/-! ### Notes -/

/-- The kinds of notes. -/
inductive NoteKind where
  | success
  | warning
  | failure
  deriving DecidableEq

def NoteKind.mark : NoteKind → String
  | .success => "✔"
  | .warning => "⚠"
  | .failure => "✖"

def NoteKind.style : NoteKind → Style
  | .success => { color := some .green }
  | .warning => { color := some .yellow }
  | .failure => { color := some .red }

/-- The line of a note. -/
def note (colored : Bool) (kind : NoteKind) (message : String) : String :=
  let mark : Span := ⟨kind.mark, kind.style⟩
  let text : Span := ⟨message, kind.style⟩
  renderSpans colored [mark, " ", text, "\n"]

/-- The result of a run that breaks off. What is said about that is not the tool's. -/
def brokenOff (env : Environment) (notes : String) : RunResult :=
  { code := 101, notes := notes, system := env.system }

/-- The result of a run that could not do what was asked, after the given notes. -/
def failed (env : Environment) (colored : Bool) (notes message : String) : RunResult :=
  { code := 2, notes := notes ++ note colored .failure message, system := env.system }

/-! ### Parts of commands -/

/-- The configuration to use: that of a file, or the standard one. -/
def loadConfig (env : Environment) : Option String → Except String Config
  | none => .ok .standard
  | some path =>
    if env.system.exists? path then
      (env.system.loadConfig path).mapError (·.message)
    else .error (missingPath "Configuration file" path)

/-- A configuration with what the options say about dynamic parameters. -/
def AnalyzeOptions.override (options : AnalyzeOptions) (config : Config) : Config :=
  let dynamic := config.settings.dynamicParameters
  let dynamic : DynamicSettings := { dynamic with
    enabled := dynamic.enabled && !options.noDynamic
    timeoutMs := options.timeoutMs.getD dynamic.timeoutMs
    interpreter := options.interpreter.getD dynamic.interpreter }
  { config with settings := { config.settings with dynamicParameters := dynamic } }

/-- The files to analyze. Stored trees are taken as they are given. -/
def inputFiles (env : Environment) (options : AnalyzeOptions) : Except String (List String) :=
  if options.treeJson then
    match options.paths.find? (!env.system.exists? ·) with
    | some path => .error (missingPath "Input path" path)
    | none => .ok options.paths
  else env.system.scriptFiles options.paths options.recursive

/-- The report on one file, unless its analysis breaks off. -/
def fileReport? (env : Environment) (engine : Engine) (treeJson : Bool) (path : String) :
    Option FileReport :=
  let clock : String → UInt64 := fun _ => 0
  let analysis :=
    if treeJson then engine.analyzeTreeFile clock env.system path
    else engine.analyzeFile clock env.system path
  match analysis.outcome with
  | .ok diagnostics => some { path := path, diagnostics := diagnostics }
  | .error (.reported error) => some { path := path, error := some error.message }
  | .error .overflow => none

/-- The exit code of an analysis: 1 when something was found or a file failed. -/
def exitCode (reports : List FileReport) : Nat :=
  let totals := ReportTotals.ofReports reports
  if 0 < totals.diagnostics ∨ 0 < totals.failedFiles then 1 else 0

/-! ### Commands -/

/-- Hands a report over: prints it, or writes it to a file. -/
def deliver (env : Environment) (colored : Bool) (notes : String) (options : AnalyzeOptions)
    (format : ReportFormat) (reports : List FileReport) : RunResult :=
  match options.output with
  | none =>
    { code := exitCode reports, output := format.render colored env.time reports, notes := notes,
      system := env.system }
  | some path =>
    let bytes := Text.utf8 (format.render false env.time reports).toList
    match env.system.write path bytes with
    | .ok system =>
      { code := exitCode reports, notes := notes ++ note colored .success s!"Report written to {path}",
        written := some (path, bytes), system := system }
    | .error reason =>
      failed env colored notes s!"Failed to write output to {path}: {reason.message}"

/-- Analyzes scripts. The configuration may switch colours off. -/
def analyze (env : Environment) (colored : Bool) (options : AnalyzeOptions) : RunResult :=
  match ReportFormat.ofName? options.format with
  | none => failed env colored "" (ReportFormat.unknown options.format)
  | some format =>
    match loadConfig env options.config with
    | .error message => failed env colored "" message
    | .ok config =>
      let config := AnalyzeOptions.override options config
      let colored := colored && config.settings.useColors
      match inputFiles env options with
      | .error message => failed env colored "" message
      | .ok files =>
        let notes := if files.isEmpty then note colored .warning "No PowerShell scripts found" else ""
        let engine := Engine.new config env.programs
        match files.mapM (fileReport? env engine options.treeJson) with
        | some reports => deliver env colored notes options format reports
        | none => brokenOff env notes

/-- The lines about a rule. -/
def ruleLines (config : Config) (info : RuleInfo) : List Span :=
  let name : Span := ⟨info.name, { bold := true }⟩
  let state : Span :=
    if config.isEnabled info.name then ⟨"enabled", { color := some .green }⟩
    else ⟨"disabled", { color := some .red }⟩
  let description : Span := ⟨info.description, { dimmed := true }⟩
  [name, s!" [{info.severity.word}] (", state, s!") {info.commonName}\n    ", description, "\n"]

/-- Lists the rules. -/
def listRules (env : Environment) (colored : Bool) (path : Option String) : RunResult :=
  match loadConfig env path with
  | .error message => failed env colored "" message
  | .ok config =>
    let rules := (Registry.builtin config.settings env.programs).rules
    { code := 0, output := renderSpans colored (rules.flatMap fun rule => ruleLines config rule.info),
      system := env.system }

/-- Writes the standard configuration to a file. -/
def generateConfig (env : Environment) (colored : Bool) (path : String) : RunResult :=
  match env.system.saveConfig path .standard with
  | .ok system =>
    { code := 0, notes := note colored .success s!"Configuration written to {path}",
      written := some (path, configBytes path .standard), system := system }
  | .error error => failed env colored "" error.message

/-- The help of the functions in a tree. -/
def helpJson (tree : ScriptBlock) : Json :=
  .arr (tree.help.map fun (function, help) =>
    .obj [("function", .str function.name), ("help", help.toJson.sorted),
      ("line", .nat function.extent.startLine)])

/-- Prints the tree of a script, or the help in it. -/
def dumpTree (env : Environment) (colored : Bool) (path : String) (helpInfo : Bool) : RunResult :=
  if !env.system.exists? path then failed env colored "" (missingPath "Script file" path)
  else match env.system.read path with
    | .error reason =>
      -- The reason is told twice: by the error itself and as its cause.
      let error := (AnalysisError.unreadable path reason.message).message
      failed env colored "" s!"Failed to parse {path}: {error}: {reason.message}"
    | .ok bytes =>
      match parse (decodeScript bytes) (some path) with
      | .error error => failed env colored "" s!"Failed to parse {path}: {error.message}"
      | .ok tree =>
        let json := if helpInfo then helpJson tree else tree.toJson
        { code := 0, output := json.pretty ++ "\n", system := env.system }

/-- Does what a command line asks for. -/
def run (env : Environment) (arguments : List String) : RunResult :=
  match read arguments with
  | .error .usage => { code := 2, system := env.system }
  | .error .help => { code := 0, system := env.system }
  | .error .version =>
    let tool : Tool := {}
    { code := 0, output := s!"{tool.name} {tool.version}\n", system := env.system }
  | .ok invocation =>
    let colored := env.colors && !invocation.noColor
    match invocation.request with
    | .analyze options => analyze env colored options
    | .listRules config => listRules env colored config
    | .generateConfig output => generateConfig env colored output
    | .dumpTree file helpInfo => dumpTree env colored file helpInfo

end CommandLine

end HelpAudit
