import HelpAudit.Shell.Command

/-! Reading the text of a shell script into a command, for the programs that `Main` hands over. The reading is by steps, of which a text needs no
    more than a few for each character. -/

namespace HelpAudit.Shell

/-! ### Words -/

def isNameStart (c : Char) : Bool := c.isAlpha || c = '_'

def isNameChar (c : Char) : Bool := c.isAlphanum || c = '_'

/-- The names of one character: the arguments, their number, the last status, the process. -/
def isSpecialName (c : Char) : Bool := c.isDigit || c ∈ ['#', '?', '$', '@', '*']

/-- The text before `))`, and what follows it. -/
def untilDoubleParen : List Char → Option (List Char × List Char)
  | ')' :: ')' :: rest => some ([], rest)
  | c :: rest => (untilDoubleParen rest).map fun (text, rest) => (c :: text, rest)
  | [] => none

/-- The text before a character, and what follows that. -/
def untilChar (stop : Char) : List Char → Option (List Char × List Char)
  | [] => none
  | c :: rest =>
    if c = stop then some ([], rest)
    else (untilChar stop rest).map fun (text, rest) => (c :: text, rest)

/-- What a dollar sign begins. -/
def expansion? (quoted : Bool) : List Char → Option (Piece × List Char)
  | '(' :: '(' :: rest =>
    (untilDoubleParen rest).map fun (text, rest) => (.arithmetic text quoted, rest)
  | '(' :: _ => none
  | '\x7b' :: rest =>
    (untilChar '\x7d' rest).map fun (name, rest) => (.reference (.ofList name) quoted, rest)
  | c :: rest =>
    if isNameStart c then
      some (.reference (.ofList (c :: rest.takeWhile isNameChar)) quoted, rest.dropWhile isNameChar)
    else if isSpecialName c then some (.reference c.toString quoted, rest)
    else some (.literal ['$'] quoted, c :: rest)
  | [] => some (.literal ['$'] quoted, [])

/-- The pieces of a text in double quotes. -/
def quotedPieces : (steps : Nat) → List Char → Option (Word × List Char)
  | 0, _ => none
  | _, [] => none
  | _ + 1, '"' :: rest => some ([], rest)
  | steps + 1, '\\' :: c :: rest => do
    let text := if c ∈ ['$', '`', '"', '\\'] then [c] else if c = '\n' then [] else ['\\', c]
    let (pieces, rest) ← quotedPieces steps rest
    return (.literal text true :: pieces, rest)
  | steps + 1, '$' :: rest => do
    let (piece, rest) ← expansion? true rest
    let (pieces, rest) ← quotedPieces steps rest
    return (piece :: pieces, rest)
  | steps + 1, c :: rest => do
    let (pieces, rest) ← quotedPieces steps rest
    return (.literal [c] true :: pieces, rest)

/-- Characters that end a word. -/
def endsWord (c : Char) : Bool := c ∈ [' ', '\t', '\n', ';', '&', '|', '(', ')', '<', '>']

/-- The pieces of a word. -/
def wordPieces : (steps : Nat) → List Char → Option (Word × List Char)
  | 0, _ => none
  | _, [] => some ([], [])
  | steps + 1, '\'' :: rest => do
    let (text, rest) ← untilChar '\'' rest
    let (pieces, rest) ← wordPieces steps rest
    return (.literal text true :: pieces, rest)
  | steps + 1, '"' :: rest => do
    let (inner, rest) ← quotedPieces steps rest
    let (pieces, rest) ← wordPieces steps rest
    return (.literal [] true :: inner ++ pieces, rest)
  | steps + 1, '\\' :: c :: rest => do
    let (pieces, rest) ← wordPieces steps rest
    return (if c = '\n' then pieces else .literal [c] true :: pieces, rest)
  | steps + 1, '$' :: rest => do
    let (piece, rest) ← expansion? false rest
    let (pieces, rest) ← wordPieces steps rest
    return (piece :: pieces, rest)
  | steps + 1, c :: rest => do
    if endsWord c then return ([], c :: rest)
    let (pieces, rest) ← wordPieces steps rest
    return (.literal [c] false :: pieces, rest)

/-! ### Symbols -/

/-- A word, an operator between commands, or a redirection. -/
inductive Symbol where
  | word (word : Word)
  | operator (text : String)
  | redirection (redirection : Redirection)

/-- A redirection of the stream `source`, whose target follows. Files stand for no stream at all. -/
def redirection? (steps : Nat) (source : Nat) : List Char → Option (Symbol × List Char)
  | '&' :: d :: rest =>
    if d.isDigit then some (.redirection ⟨source, .stream (d.toNat - '0'.toNat)⟩, rest) else none
  | rest => do
    let rest := rest.dropWhile (· = '>')
    let (word, rest) ← wordPieces steps (rest.dropWhile (· = ' '))
    if word.isEmpty then none
    return (.redirection ⟨source, .nowhere⟩, rest)

/-- The symbols of a script. -/
def symbols : (steps : Nat) → List Char → Option (List Symbol)
  | 0, _ => none
  | _, [] => some []
  | steps + 1, ' ' :: rest => symbols steps rest
  | steps + 1, '\t' :: rest => symbols steps rest
  | steps + 1, '#' :: rest => symbols steps (rest.dropWhile (· ≠ '\n'))
  | steps + 1, '&' :: '&' :: rest => do return .operator "&&" :: (← symbols steps rest)
  | steps + 1, '|' :: '|' :: rest => do return .operator "||" :: (← symbols steps rest)
  | steps + 1, '>' :: rest => do
    let (symbol, rest) ← redirection? steps 1 rest
    return symbol :: (← symbols steps rest)
  | steps + 1, '<' :: rest => do
    let (symbol, rest) ← redirection? steps 0 rest
    return symbol :: (← symbols steps rest)
  | steps + 1, c :: rest => do
    if c = ';' ∨ c = '\n' then return .operator ";" :: (← symbols steps rest)
    match c.isDigit, rest with
    | true, '>' :: rest =>
      let (symbol, rest) ← redirection? steps (c.toNat - '0'.toNat) rest
      return symbol :: (← symbols steps rest)
    | _, _ =>
      if endsWord c then none
      let (word, rest) ← wordPieces steps (c :: rest)
      return .word word :: (← symbols steps rest)

/-! ### Commands -/

/-- The text of a word without quotes and expansions. -/
def plainText? : Word → Option (List Char)
  | [] => some []
  | .literal text false :: pieces => (plainText? pieces).map (text ++ ·)
  | _ => none

/-- The text of a symbol that could be a keyword. -/
def Symbol.keyword? : Symbol → Option String
  | .word w => (plainText? w).map .ofList
  | _ => none

/-- The words that end a list of commands. -/
def closingWords : List String := ["then", "else", "elif", "fi", "do", "done", "\x7d"]

/-- The symbols after an expected keyword. -/
def expectWord (keyword : String) : List Symbol → Option (List Symbol)
  | [] => none
  | symbol :: rest => if symbol.keyword? = some keyword then some rest else none

/-- The symbols after separators. -/
def skipSeparators : List Symbol → List Symbol
  | .operator ";" :: rest => skipSeparators rest
  | symbols => symbols

/-- The redirections after a compound command. -/
def redirections : List Symbol → List Redirection × List Symbol
  | .redirection r :: rest =>
    let (more, rest) := redirections rest
    (r :: more, rest)
  | symbols => ([], symbols)

/-- The words and redirections of a simple command. -/
def simpleParts : List Symbol → List Word × List Redirection × List Symbol
  | .word w :: rest =>
    let (words, redirections, rest) := simpleParts rest
    (w :: words, redirections, rest)
  | .redirection r :: rest =>
    let (words, redirections, rest) := simpleParts rest
    (words, r :: redirections, rest)
  | symbols => ([], [], symbols)

mutual

/-- Commands one after the other, up to a closing word or the end. -/
def commandList : (steps : Nat) → List Symbol → Option (Command × List Symbol)
  | 0, _ => none
  | steps + 1, symbols => do
    let symbols := skipSeparators symbols
    match symbols with
    | [] => some (.nothing, [])
    | symbol :: _ =>
      if symbol.keyword?.any (closingWords.contains ·) then some (.nothing, symbols)
      else
        let (first, rest) ← commandChain steps symbols
        match rest with
        | .operator ";" :: rest =>
          let (second, rest) ← commandList steps rest
          return (.sequence first second, rest)
        | rest => some (first, rest)

/-- Commands joined by `&&` and `||`. -/
def commandChain : (steps : Nat) → List Symbol → Option (Command × List Symbol)
  | 0, _ => none
  | steps + 1, symbols => do
    let (first, rest) ← command steps symbols
    commandRest steps first rest

/-- What is joined to a command by `&&` and `||`. -/
def commandRest : (steps : Nat) → Command → List Symbol → Option (Command × List Symbol)
  | 0, _, _ => none
  | steps + 1, first, .operator "&&" :: rest => do
    let (second, rest) ← command steps (skipSeparators rest)
    commandRest steps (.conditional true first second) rest
  | steps + 1, first, .operator "||" :: rest => do
    let (second, rest) ← command steps (skipSeparators rest)
    commandRest steps (.conditional false first second) rest
  | _ + 1, first, rest => some (first, rest)

/-- The rest of a choice after `if` or `elif`. -/
def choiceRest : (steps : Nat) → List Symbol → Option (Command × List Symbol)
  | 0, _ => none
  | steps + 1, symbols => do
    let (condition, rest) ← commandList steps symbols
    let (yes, rest) ← commandList steps (← expectWord "then" rest)
    match rest with
    | [] => none
    | symbol :: rest =>
      match symbol.keyword? with
      | some "fi" => return (.choice condition yes .nothing, rest)
      | some "else" =>
        let (no, rest) ← commandList steps rest
        return (.choice condition yes no, ← expectWord "fi" rest)
      | some "elif" =>
        let (no, rest) ← choiceRest steps rest
        return (.choice condition yes no, rest)
      | _ => none

/-- One command. -/
def command : (steps : Nat) → List Symbol → Option (Command × List Symbol)
  | 0, _ => none
  | _, [] => none
  | steps + 1, symbol :: rest =>
    match symbol.keyword? with
    | some "!" => do
      let (inner, rest) ← command steps rest
      return (.negation inner, rest)
    | some "if" => choiceRest steps rest
    | some "while" => loopRest steps true rest
    | some "until" => loopRest steps false rest
    | some "for" => do
      match rest with
      | name :: rest =>
        let items := simpleParts (← expectWord "in" rest)
        let (body, rest) ← commandList steps (← expectWord "do" (skipSeparators items.2.2))
        return (.each (← name.keyword?) items.1 body, ← expectWord "done" rest)
      | [] => none
    | some "\x7b" => do
      let (inner, rest) ← commandList steps rest
      let (redirections, rest) := redirections (← expectWord "\x7d" rest)
      return (.group inner redirections, rest)
    | _ =>
      let (words, redirections, after) := simpleParts (symbol :: rest)
      if words.isEmpty && redirections.isEmpty then none
      else some (.simple words redirections, after)

/-- The rest of a loop after its keyword. -/
def loopRest : (steps : Nat) → Bool → List Symbol → Option (Command × List Symbol)
  | 0, _, _ => none
  | steps + 1, whileSuccess, symbols => do
    let (condition, rest) ← commandList steps symbols
    let (body, rest) ← commandList steps (← expectWord "do" rest)
    let (redirections, rest) := redirections (← expectWord "done" rest)
    return (.group (.loop whileSuccess condition body) redirections, rest)

end

/-- The command of a script. -/
def Command.ofText? (text : List Char) : Option Command := do
  let symbols ← symbols (2 * text.length + 2) text
  match ← commandList (4 * symbols.length + 4) symbols with
  | (command, []) => some command
  | _ => none

end HelpAudit.Shell
