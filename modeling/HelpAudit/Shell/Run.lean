import HelpAudit.Evaluation.Process
import HelpAudit.FileTree
import HelpAudit.Shell.Reader
import HelpAudit.Text.Utf8

/-! Running commands: what a script prints, how it ends, and how long it waits. The last definition,
    `programs`, is what `Main` hands over in place of the programs of its system. -/

namespace HelpAudit.Shell

/-- The streams of a command: each goes to one of the streams of the script, or nowhere. -/
structure Streams where
  output : Option Nat := some 1
  errors : Option Nat := some 2

/-- The streams after a redirection. -/
def Streams.redirect (streams : Streams) (r : Redirection) : Streams :=
  let target := match r.target with
    | .stream 1 => streams.output
    | .stream 2 => streams.errors
    | _ => none
  match r.source with
  | 1 => { streams with output := target }
  | 2 => { streams with errors := target }
  | _ => streams

/-- How a script ended. -/
inductive Ending where
  | exit (code : Nat)
  | killed
  /-- The script was still running after very many steps. -/
  | endless
  deriving DecidableEq

/-- The state of a running script. What was printed is kept backwards. -/
structure State where
  arguments : List (List Char)
  bindings : List (String × List Char) := []
  status : Nat := 0
  output : List UInt8 := []
  errors : List UInt8 := []
  milliseconds : Nat := 0
  ending : Option Ending := none

namespace State

/-- The state after bytes were written to a stream. -/
def write (state : State) (stream : Option Nat) (bytes : List UInt8) : State :=
  match stream with
  | some 1 => { state with output := bytes.reverse ++ state.output }
  | some 2 => { state with errors := bytes.reverse ++ state.errors }
  | _ => state

def assign (state : State) (name : String) (value : List Char) : State :=
  { state with bindings := (name, value) :: state.bindings.filter (·.1 ≠ name) }

/-- The value of a name. -/
def value (state : State) (name : String) : List Char :=
  match name.toNat? with
  | some n => (state.arguments[n]?).getD []
  | none => match name with
    | "#" => Nat.toDigits 10 (state.arguments.length - 1)
    | "?" => Nat.toDigits 10 state.status
    | "$" => ['$', '$']
    | "@" | "*" => [' '].intercalate (state.arguments.drop 1)
    | _ => (state.bindings.lookup name).getD []

end State

/-! ### Arithmetic -/

/-- The whole number that a text denotes. -/
def number? (text : List Char) : Option Int :=
  match text with
  | '-' :: digits => if digits ≠ [] ∧ digits.all Char.isDigit then
      some (-(Nat.ofDigitChars 10 digits 0 : Int)) else none
  | '+' :: digits | digits => if digits ≠ [] ∧ digits.all Char.isDigit then
      some (Nat.ofDigitChars 10 digits 0 : Int) else none

/-- A number in decimal digits. -/
def decimal (n : Int) : List Char := (toString n).toList

mutual

/-- A sum and what follows it. -/
def sum (state : State) : (steps : Nat) → List Char → Option (Int × List Char)
  | 0, _ => none
  | steps + 1, text => do
    let (first, rest) ← product state steps text
    sumRest state steps first rest

def sumRest (state : State) : (steps : Nat) → Int → List Char → Option (Int × List Char)
  | 0, _, _ => none
  | steps + 1, first, ' ' :: rest => sumRest state steps first rest
  | steps + 1, first, '+' :: rest => do
    let (second, rest) ← product state steps rest
    sumRest state steps (first + second) rest
  | steps + 1, first, '-' :: rest => do
    let (second, rest) ← product state steps rest
    sumRest state steps (first - second) rest
  | _ + 1, first, rest => some (first, rest)

/-- A product and what follows it. -/
def product (state : State) : (steps : Nat) → List Char → Option (Int × List Char)
  | 0, _ => none
  | steps + 1, text => do
    let (first, rest) ← factor state steps text
    productRest state steps first rest

def productRest (state : State) : (steps : Nat) → Int → List Char → Option (Int × List Char)
  | 0, _, _ => none
  | steps + 1, first, ' ' :: rest => productRest state steps first rest
  | steps + 1, first, '*' :: rest => do
    let (second, rest) ← factor state steps rest
    productRest state steps (first * second) rest
  | steps + 1, first, '/' :: rest => do
    let (second, rest) ← factor state steps rest
    if second = 0 then none else productRest state steps (first.tdiv second) rest
  | steps + 1, first, '%' :: rest => do
    let (second, rest) ← factor state steps rest
    if second = 0 then none else productRest state steps (first.tmod second) rest
  | _ + 1, first, rest => some (first, rest)

/-- A number, a name or a sum in parentheses, and what follows it. -/
def factor (state : State) : (steps : Nat) → List Char → Option (Int × List Char)
  | 0, _ => none
  | _ + 1, [] => none
  | steps + 1, ' ' :: rest => factor state steps rest
  | steps + 1, '$' :: rest => factor state steps rest
  | steps + 1, '-' :: rest => do
    let (value, rest) ← factor state steps rest
    return (-value, rest)
  | steps + 1, '(' :: rest => do
    let (value, rest) ← sum state steps rest
    match rest with
    | ')' :: rest => return (value, rest)
    | _ => none
  | _ + 1, c :: rest =>
    if c.isDigit then
      some (Nat.ofDigitChars 10 ((c :: rest).takeWhile Char.isDigit) 0, rest.dropWhile Char.isDigit)
    else if isNameStart c then
      let text := state.value (.ofList (c :: rest.takeWhile isNameChar))
      (if text = [] then some 0 else number? text).map fun value => (value, rest.dropWhile isNameChar)
    else none

end

/-- The value of an arithmetic expression. -/
def arithmeticValue (state : State) (text : List Char) : Option Int :=
  match sum state (3 * text.length + 4) text with
  | some (value, []) => some value
  | _ => none

/-! ### Expansion -/

/-- The text of a piece. -/
def Piece.text (state : State) : Piece → List Char
  | .literal text _ => text
  | .reference name _ => state.value name
  | .arithmetic expression _ => ((arithmeticValue state expression).map decimal).getD []

/-- Whether the text of a piece is split at blanks. -/
def Piece.splits : Piece → Bool
  | .literal .. => false
  | .reference _ quoted => !quoted
  | .arithmetic _ quoted => !quoted

/-- Adds the text of a piece that is not split to the last field. -/
def extendLast (text : List Char) : List (List Char) → List (List Char)
  | [] => [text]
  | [field] => [field ++ text]
  | field :: fields => field :: extendLast text fields

/-- The fields of a word. A word without quotes that expands to nothing has no field. -/
def fields (state : State) (word : Word) : List (List Char) :=
  let step (found : List (List Char) × Bool) (piece : Piece) : List (List Char) × Bool :=
    -- The flag tells that the next text starts a field of its own.
    let text := piece.text state
    if piece.splits then
      let isBlank (c : Char) : Bool := c = ' ' || c = '\t' || c = '\n'
      let parts := (text.splitBy fun a b => isBlank a == isBlank b).filter
        fun part => !(part.any isBlank)
      let startsApart := found.2 || (text.head?.map isBlank).getD false
      match parts with
      | [] => (found.1, startsApart)
      | part :: parts =>
        let first := if startsApart then found.1 ++ [part] else extendLast part found.1
        (first ++ parts, (text.getLast?.map isBlank).getD false)
    else if found.2 then (found.1 ++ [text], false)
    else (extendLast text found.1, false)
  (word.foldl step ([], false)).1

/-- The value that a word gives to a variable. -/
def valueOf (state : State) (word : Word) : List Char := word.flatMap (·.text state)

/-- A word that assigns a value: a name, an equals sign and the value. -/
def assignment? (word : Word) : Option (String × Word) := do
  let plain := word.takeWhile fun piece =>
    match piece with
    | .literal text false => text ≠ ['=']
    | _ => false
  let name ← plainText? plain
  match name, word.drop plain.length with
  | c :: cs, .literal ['='] false :: rest =>
    if isNameStart c && cs.all isNameChar then some (.ofList name, rest) else none
  | _, _ => none

/-! ### Utilities -/

/-- The value of up to `count` octal digits, and what follows them. -/
def octal : (count : Nat) → (value : Nat) → List Char → Nat × List Char
  | count + 1, value, c :: rest =>
    if '0' ≤ c ∧ c ≤ '7' then octal count (value * 8 + (c.toNat - '0'.toNat)) rest
    else (value, c :: rest)
  | _, value, rest => (value, rest)

/-- The bytes of a character after a backslash, when it is an escape. -/
def escape? : Char → Option (List UInt8)
  | 'a' => some [7]
  | 'b' => some [8]
  | 'f' => some [12]
  | 'n' => some [10]
  | 'r' => some [13]
  | 't' => some [9]
  | 'v' => some [11]
  | '\\' => some [92]
  | _ => none

def charBytes (c : Char) : List UInt8 := Text.utf8 [c]

/-- What `echo` prints for a text: escapes are replaced, and `\c` ends the output. -/
def echoed : (steps : Nat) → List Char → List UInt8 × Bool
  | 0, _ => ([], true)
  | _ + 1, [] => ([], true)
  | steps + 1, '\\' :: '0' :: rest =>
    let (value, rest) := octal 3 0 rest
    let (bytes, goesOn) := echoed steps rest
    (UInt8.ofNat value :: bytes, goesOn)
  | _ + 1, '\\' :: 'c' :: _ => ([], false)
  | steps + 1, '\\' :: c :: rest =>
    let (bytes, goesOn) := echoed steps rest
    ((escape? c).getD (charBytes '\\' ++ charBytes c) ++ bytes, goesOn)
  | steps + 1, c :: rest =>
    let (bytes, goesOn) := echoed steps rest
    (charBytes c ++ bytes, goesOn)

def echo (arguments : List (List Char)) : List UInt8 :=
  let (quiet, words) := match arguments with
    | ['-', 'n'] :: words => (true, words)
    | words => (false, words)
  let text := [' '].intercalate words
  let (bytes, goesOn) := echoed (text.length + 1) text
  bytes ++ (if goesOn && !quiet then [10] else [])

/-- One pass of `printf` over its format: the bytes, the arguments that are left, and whether an
    argument was wanted. -/
def formatted : (steps : Nat) → List Char → List (List Char) →
    List UInt8 × List (List Char) × Bool
  | 0, _, arguments => ([], arguments, false)
  | _ + 1, [], arguments => ([], arguments, false)
  | steps + 1, '\\' :: c :: rest, arguments =>
    let (first, rest) : List UInt8 × List Char :=
      if '0' ≤ c ∧ c ≤ '7' then
        let (value, rest) := octal 3 0 (c :: rest)
        ([UInt8.ofNat value], rest)
      else ((escape? c).getD
        (if c = '"' ∨ c = '\'' then charBytes c else charBytes '\\' ++ charBytes c), rest)
    let (bytes, arguments, wanted) := formatted steps rest arguments
    (first ++ bytes, arguments, wanted)
  | steps + 1, '%' :: '%' :: rest, arguments =>
    let (bytes, arguments, wanted) := formatted steps rest arguments
    (37 :: bytes, arguments, wanted)
  | steps + 1, '%' :: c :: rest, arguments =>
    let argument := (arguments.head?).getD []
    let first := match c with
      | 's' => Text.utf8 argument
      | 'b' => (echoed (argument.length + 1) argument).1
      | 'c' => Text.utf8 (argument.take 1)
      | 'd' | 'i' | 'u' => Text.utf8 (decimal ((number? argument).getD 0))
      | _ => []
    let (bytes, arguments, _) := formatted steps rest (arguments.drop 1)
    (first ++ bytes, arguments, true)
  | steps + 1, c :: rest, arguments =>
    let (bytes, arguments, wanted) := formatted steps rest arguments
    (charBytes c ++ bytes, arguments, wanted)

/-- What `printf` prints: its format is used again as long as arguments are left. -/
def printed (format : List Char) : (passes : Nat) → List (List Char) → List UInt8
  | 0, _ => []
  | passes + 1, arguments =>
    let (bytes, rest, wanted) := formatted (format.length + 1) format arguments
    bytes ++ (if wanted && !rest.isEmpty then printed format passes rest else [])

/-- Whether a test holds; none when it makes no sense. -/
def test? : List (List Char) → Option Bool
  | [] => some false
  | [text] => some (text ≠ [])
  | [operator, text] =>
    match String.ofList operator with
    | "!" => some (text = [])
    | "-n" => some (text ≠ [])
    | "-z" => some (text = [])
    | _ => none
  | [left, operator, right] => do
    let numbers (compare : Int → Int → Bool) : Option Bool := do
      return compare (← number? left) (← number? right)
    match String.ofList operator with
    | "=" => some (left = right)
    | "!=" => some (left ≠ right)
    | "-eq" => numbers (· == ·)
    | "-ne" => numbers (· != ·)
    | "-lt" => numbers (· < ·)
    | "-le" => numbers (· ≤ ·)
    | "-gt" => numbers (· > ·)
    | "-ge" => numbers (· ≥ ·)
    | _ => none
  | ['!'] :: rest => (test? rest).map (!·)
  | _ => none

/-- A number of seconds, which may have decimal places, in milliseconds. -/
def milliseconds? (text : List Char) : Option Nat :=
  let whole := text.takeWhile (· ≠ '.')
  let places := (text.dropWhile (· ≠ '.')).drop 1
  if text ≠ [] ∧ whole.all Char.isDigit ∧ places.all Char.isDigit then
    some (Nat.ofDigitChars 10 whole 0 * 1000 +
      Nat.ofDigitChars 10 ((places ++ ['0', '0', '0']).take 3) 0)
  else none

/-- The state after a utility ran. -/
def utility (streams : Streams) (name : String) (arguments : List (List Char)) (state : State) :
    State :=
  let done (status : Nat) (state : State) : State := { state with status := status }
  let truth (holds : Option Bool) : State :=
    done (match holds with
      | some true => 0
      | some false => 1
      | none => 2) state
  let complain (message : List Char) : State :=
    let self := (state.arguments.head?).getD []
    state.write streams.errors (Text.utf8 (self ++ ": 1: ".toList ++ message ++ ['\n']))
  match name with
  | ":" | "true" | "cat" => done 0 state
  | "false" => done 1 state
  | "echo" => done 0 (state.write streams.output (echo arguments))
  | "printf" =>
    match arguments with
    | format :: arguments =>
      done 0 (state.write streams.output (printed format (arguments.length + 1) arguments))
    | [] => done 2 state
  | "test" => truth (test? arguments)
  | "[" =>
    match arguments.getLast? with
    | some [']'] => truth (test? arguments.dropLast)
    | _ => done 2 state
  | "sleep" =>
    match arguments with
    | [text] =>
      match milliseconds? text with
      | some time => done 0 { state with milliseconds := state.milliseconds + time }
      | none => done 1 state
    | _ => done 1 state
  | "exit" =>
    match arguments with
    | [] => { state with ending := some (.exit state.status) }
    | text :: _ =>
      if text ≠ [] ∧ text.all Char.isDigit then
        { state with ending := some (.exit (Nat.ofDigitChars 10 text 0 % 256)) }
      else
        { complain ("exit: Illegal number: ".toList ++ text) with ending := some (.exit 2) }
  | "kill" =>
    if arguments.getLast? ≠ some ['$', '$'] then done 1 state
    else if ['-', '0'] ∈ arguments then done 0 state
    else { state with ending := some .killed }
  | _ => done 127 (complain (name.toList ++ ": not found".toList))

/-! ### Commands -/

/-- The assignments at the beginning of a command, and its other words. -/
def assignments : List Word → List (String × Word) × List Word
  | [] => ([], [])
  | word :: words =>
    match assignment? word with
    | some found =>
      let (more, words) := assignments words
      (found :: more, words)
    | none => ([], word :: words)

/-- The state after a simple command. -/
def runSimple (streams : Streams) (words : List Word) (redirections : List Redirection)
    (state : State) : State :=
  let streams := redirections.foldl Streams.redirect streams
  let (settings, words) := assignments words
  let assigned := settings.foldl (fun state (name, word) => state.assign name (valueOf state word)) state
  match words.flatMap (fields state) with
  | [] => { assigned with status := 0 }
  | ['e', 'x', 'e', 'c'] :: name :: arguments =>
    let state := utility streams (.ofList name) arguments assigned
    { state with ending := state.ending <|> some (.exit state.status) }
  | name :: arguments =>
    { utility streams (.ofList name) arguments assigned with bindings := state.bindings }

/-- The state after a command. A script that has ended does nothing more. -/
def run : (steps : Nat) → Streams → Command → State → State
  | 0, _, _, state => { state with ending := state.ending <|> some .endless }
  | steps + 1, streams, command, state =>
    if state.ending.isSome then state
    else match command with
      | .nothing => state
      | .simple words redirections => runSimple streams words redirections state
      | .sequence first second => run steps streams second (run steps streams first state)
      | .conditional ifSuccess first second =>
        let state := run steps streams first state
        if (state.status == 0) == ifSuccess then run steps streams second state else state
      | .negation inner =>
        let state := run steps streams inner state
        { state with status := if state.status = 0 then 1 else 0 }
      | .choice condition yes no =>
        let state := run steps streams condition state
        if state.status = 0 then run steps streams yes state
        else run steps streams no { state with status := 0 }
      | .loop whileSuccess condition body =>
        let state := run steps streams condition state
        if (state.status == 0) == whileSuccess then
          run steps streams (.loop whileSuccess condition body) (run steps streams body state)
        else { state with status := 0 }
      | .each name items body =>
        (items.flatMap (fields state)).foldl
          (fun state value => run steps streams body (state.assign name value)) state
      | .group inner redirections =>
        run steps (redirections.foldl Streams.redirect streams) inner state

/-- How many steps a script may take. -/
def stepLimit : Nat := 1000000

/-- What became of a script, given the state it left. -/
def State.outcome (state : State) : ProcessOutcome :=
  match state.ending with
  | some .endless => .endless
  | some .killed => .ended none state.output.reverse state.errors.reverse state.milliseconds
  | some (.exit code) =>
    .ended (some code) state.output.reverse state.errors.reverse state.milliseconds
  | none => .ended (some state.status) state.output.reverse state.errors.reverse state.milliseconds

/-- Runs the text of a script with its arguments, the first of which is its name. -/
def runScript (text : String) (arguments : List String) : ProcessOutcome :=
  match Command.ofText? text.toList with
  | some command => (run stepLimit {} command { arguments := arguments.map (·.toList) }).outcome
  | none =>
    .ended (some 2) [] (Text.utf8 ((arguments.head?.getD "sh") ++ ": 1: Syntax error").toList) 0

/-- The programs that stand in for those of a system: a shell, which runs the script after `-c`, and
    utilities. Any other program, such as the interpreter of the standard settings, is not found. -/
def programs : Programs
  | "sh", "-c" :: script :: arguments =>
    runScript script (if arguments.isEmpty then ["sh"] else arguments)
  | "sh", file :: _ => .ended (some 2) [] (Text.utf8 s!"sh: 0: cannot open {file}: No such file".toList) 0
  | program, arguments =>
    if program ∈ ["true", "false", "echo", "printf", "sleep", "cat", "test"] then
      (utility {} program (arguments.map (·.toList)) { arguments := [program.toList] }).outcome
    else .notStarted FileError.notFound.message

end HelpAudit.Shell
