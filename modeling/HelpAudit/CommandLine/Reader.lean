import HelpAudit.CommandLine

/-! Reading command lines. A command line has levels: the tool, its commands and their commands. Each
    level has switches of its own, and some that are understood at every level. A switch is given at
    most once on a level. -/

namespace HelpAudit.CommandLine

/-- A switch: its names, and whether a value goes with it. -/
structure Switch where
  long : String
  short : Option Char := none
  takesValue : Bool := false

/-- A switch that was given. -/
abbrev Given := String × String

/-- What was found on a level: switches, other words, and what follows the name of a command. -/
structure Level where
  given : List Given := []
  words : List String := []
  /-- The name of a command and the arguments behind it. -/
  command : Option (String × List String) := none

/-- The switches that are understood everywhere. -/
def commonSwitches : List Switch :=
  [{ long := "verbose", short := some 'v' }, { long := "quiet", short := some 'q' },
    { long := "no-color" }, { long := "help", short := some 'h' }]

/-- Whether an argument is a switch. A dash alone is a word. -/
def isSwitch (argument : String) : Bool :=
  match argument.toList with
  | '-' :: _ :: _ => true
  | _ => false

/-- The refusal that a switch without a value asks for. -/
def Switch.refusal? (switch : Switch) : Option Refusal :=
  if switch.long = "help" then some .help
  else if switch.long = "version" then some .version
  else none

/-- The value behind a switch: the next argument, unless that is a switch itself. -/
def nextValue : List String → Option (String × List String)
  | [] => none
  | value :: rest => if isSwitch value then none else some (value, rest)

/-- Switches in short form, written together behind one dash. The last one may have a value, in the
    same argument or the next. -/
def shortSwitches (switches : List Switch) (rest : List String) :
    List Char → Except Refusal (List Given × List String)
  | [] => .ok ([], rest)
  | c :: cs =>
    match switches.find? (·.short = some c) with
    | none => .error .usage
    | some switch =>
      match switch.refusal?, switch.takesValue, cs with
      | some refusal, _, _ => .error refusal
      | none, false, cs => do
        let (more, rest) ← shortSwitches switches rest cs
        return ((switch.long, "") :: more, rest)
      | none, true, [] =>
        match nextValue rest with
        | some (value, rest) => .ok ([(switch.long, value)], rest)
        | none => .error .usage
      | none, true, '=' :: value => .ok ([(switch.long, .ofList value)], rest)
      | none, true, value => .ok ([(switch.long, .ofList value)], rest)

/-- A switch in long form. Its value is behind an equals sign or the next argument. -/
def longSwitch (switches : List Switch) (rest : List String) (text : List Char) :
    Except Refusal (List Given × List String) :=
  let name := text.takeWhile (· ≠ '=')
  match switches.find? (·.long = .ofList name) with
  | none => .error .usage
  | some switch =>
    match switch.takesValue, text.dropWhile (· ≠ '=') with
    | false, [] =>
      match switch.refusal? with
      | some refusal => .error refusal
      | none => .ok ([(switch.long, "")], rest)
    | false, _ => .error .usage
    | true, _ :: value => .ok ([(switch.long, .ofList value)], rest)
    | true, [] =>
      match nextValue rest with
      | some (value, rest) => .ok ([(switch.long, value)], rest)
      | none => .error .usage

/-- Reads one level. With `hasCommands` the first word is the name of a command, and the rest is for
    the next level. -/
def readLevel (switches : List Switch) (hasCommands : Bool) :
    (steps : Nat) → List String → Except Refusal Level
  | 0, _ => .error .usage
  | _ + 1, [] => .ok {}
  | steps + 1, argument :: rest =>
    let goOn (found : Except Refusal (List Given × List String)) : Except Refusal Level := do
      let (given, rest) ← found
      let level ← readLevel switches hasCommands steps rest
      return { level with given := given ++ level.given }
    match argument.toList with
    | ['-', '-'] => if hasCommands && !rest.isEmpty then .error .usage else .ok { words := rest }
    | '-' :: '-' :: text => goOn (longSwitch switches rest text)
    | '-' :: c :: cs => goOn (shortSwitches switches rest (c :: cs))
    | _ =>
      if hasCommands then .ok { command := some (argument, rest) }
      else do
        let level ← readLevel switches hasCommands steps rest
        return { level with words := argument :: level.words }

namespace Level

def has (level : Level) (name : String) : Bool := level.given.any (·.1 = name)

def value? (level : Level) (name : String) : Option String := level.given.lookup name

/-- Whether the switches of a level go together: none is repeated, and the tool is not told to say
    both more and less. -/
def isValid (level : Level) : Bool :=
  decide (level.given.map (·.1)).Nodup && !(level.has "verbose" && level.has "quiet")

/-- The value of a switch that names a path. Paths are not empty. -/
def path? (level : Level) (name : String) : Except Refusal (Option String) :=
  match level.value? name with
  | some "" => .error .usage
  | found => .ok found

end Level

/-- Reads a level with its own switches and the common ones. -/
def level (switches : List Switch) (hasCommands : Bool) (arguments : List String) :
    Except Refusal Level := do
  let level ← readLevel (switches ++ commonSwitches) hasCommands (arguments.length + 1) arguments
  if level.isValid then return level else .error .usage

/-- A number of milliseconds, of 64 bits. -/
def milliseconds? (text : String) : Option Nat :=
  let digits := match text.toList with
    | '+' :: digits => digits
    | digits => digits
  if digits.isEmpty || !digits.all Char.isDigit then none
  else
    let value := Nat.ofDigitChars 10 digits 0
    if value < 0x10000000000000000 then some value else none

/-- A request, and whether its level asks for no colours. -/
abbrev Reading := Except Refusal (Request × Bool)

def readAnalyze (arguments : List String) : Reading := do
  let level ← level [{ long := "recursive", short := some 'r' },
    { long := "format", short := some 'f', takesValue := true },
    { long := "output", short := some 'o', takesValue := true },
    { long := "config", short := some 'c', takesValue := true }, { long := "no-dynamic" },
    { long := "timeout-ms", takesValue := true }, { long := "interpreter", takesValue := true },
    { long := "tree-json" }] false arguments
  if level.words.isEmpty || level.words.contains "" then .error .usage
  let timeoutMs ← match level.value? "timeout-ms" with
    | none => .ok none
    | some text => match milliseconds? text with
      | some value => .ok (some value)
      | none => .error .usage
  return (.analyze {
    paths := level.words
    recursive := level.has "recursive"
    format := (level.value? "format").getD "text"
    output := ← level.path? "output"
    config := ← level.path? "config"
    noDynamic := level.has "no-dynamic"
    timeoutMs := timeoutMs
    interpreter := level.value? "interpreter"
    treeJson := level.has "tree-json" }, level.has "no-color")

def readListRules (arguments : List String) : Reading := do
  let level ← level [{ long := "config", short := some 'c', takesValue := true }] false arguments
  if !level.words.isEmpty then .error .usage
  return (.listRules (← level.path? "config"), level.has "no-color")

def readGenerateConfig (arguments : List String) : Reading := do
  let level ← level [{ long := "output", short := some 'o', takesValue := true }] false arguments
  if !level.words.isEmpty then .error .usage
  return (.generateConfig ((← level.path? "output").getD "pshelp.toml"), level.has "no-color")

def readRules (arguments : List String) : Reading := do
  let level ← level [] true arguments
  let (request, noColor) ← match level.command with
    | some ("list", rest) => readListRules rest
    | some ("generate-config", rest) => readGenerateConfig rest
    | some ("help", _) => .error .help
    | _ => .error .usage
  return (request, noColor || level.has "no-color")

def readDumpTree (arguments : List String) : Reading := do
  let level ← level [{ long := "help-info" }] false arguments
  match level.words with
  | [file] =>
    if file.isEmpty then .error .usage
    return (.dumpTree file (level.has "help-info"), level.has "no-color")
  | _ => .error .usage

/-- Reads a whole command line, without the name of the tool. -/
def read (arguments : List String) : Except Refusal Invocation := do
  let level ← level [{ long := "version", short := some 'V' }] true arguments
  let (request, noColor) ← match level.command with
    | some ("analyze", rest) => readAnalyze rest
    | some ("rules", rest) => readRules rest
    | some ("dump-tree", rest) => readDumpTree rest
    | some ("help", _) => .error .help
    | _ => .error .usage
  return { request := request, noColor := noColor || level.has "no-color" }

end HelpAudit.CommandLine
