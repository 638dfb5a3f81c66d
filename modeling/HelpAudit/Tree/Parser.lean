import HelpAudit.Token.Lexer
import HelpAudit.Tree.HelpComments
import HelpAudit.Tree.Parameters

/-! From tokens to the tree. The functions of the block below read from the front of a token list
    and answer what they read and what is left. They call each other, so they share a bound on the
    number of nested steps; `parse` sets it above what any token list needs. -/

namespace HelpAudit

mutual

/-- Reads the contents of a script block and its closing brace. `opener` is the brace that opened
    it; a whole script has none and ends with its source. -/
def parseScriptBlock (script : Script) (opener : Option Token) (ts : List Token) :
    (fuel : Nat) → Except ParseError (ScriptBlock × List Token)
  | 0 => script.fault 0 .exhausted
  | fuel + 1 => do
    let (params, ts) ← paramBlock script ts
    let ts := skipSeparators ts
    let bodyStart := (ts.head?.map Token.start).getD (Text.byteLength script.source)
    let (blocks, ts) ←
      if (namedBlockKind? ts).isSome then parseNamedBlocks script opener.isSome ts fuel
      else do
        let (statements, ts) ← parseStatements script opener.isSome ts fuel
        let bodyEnd := (statements.getLast?.map (·.extent.endOffset)).getD bodyStart
        let extent := script.extent bodyStart (max bodyEnd bodyStart)
        pure ([⟨.endBlock, true, extent, statements⟩], ts)
    match opener, ts with
    | none, ts => return (⟨script.extent 0 (Text.byteLength script.source), params, blocks⟩, ts)
    | some opener, [] => script.fault opener.start .missingBrace
    | some opener, t :: ts =>
      if t.kind = .closing .brace then
        return (⟨script.extent opener.start t.stop, params, blocks⟩, ts)
      else script.fault opener.start .missingBrace

/-- Reads named blocks up to the closing brace (when `closing` is set) or the end. -/
def parseNamedBlocks (script : Script) (closing : Bool) (ts : List Token) :
    (fuel : Nat) → Except ParseError (List NamedBlock × List Token)
  | 0 => script.fault 0 .exhausted
  | fuel + 1 =>
    match skipSeparators ts with
    | [] => .ok ([], [])
    | t :: ts =>
      if closing ∧ t.kind = .closing .brace then .ok ([], t :: ts)
      else match namedBlockKind? (t :: ts), skipTrivia ts with
        | some kind, opener :: inner => do
          let (statements, after) ← parseStatements script true inner fuel
          match after with
          | close :: rest =>
            if close.kind = .closing .brace then
              let (blocks, rest) ← parseNamedBlocks script closing rest fuel
              return (⟨kind, false, script.extent t.start close.stop, statements⟩ :: blocks, rest)
            else script.fault opener.start .missingBrace
          | [] => script.fault opener.start .missingBrace
        | _, _ => script.fault t.start (.unexpectedInNamedBlocks t.value)

/-- Reads statements up to a closing brace (when `closing` is set) or the end. -/
def parseStatements (script : Script) (closing : Bool) (ts : List Token) :
    (fuel : Nat) → Except ParseError (List Statement × List Token)
  | 0 => script.fault 0 .exhausted
  | fuel + 1 =>
    match skipSeparators ts with
    | [] => .ok ([], [])
    | t :: ts =>
      match t.kind with
      | .closing .brace =>
        if closing then .ok ([], t :: ts)
        else script.fault t.start (.unexpected Closer.brace.text)
      | .keyword (.declare kind) => do
        let (definition, rest) ← parseFunction script kind t ts fuel
        let (statements, rest) ← parseStatements script closing rest fuel
        return (.function definition :: statements, rest)
      | _ => do
        let (blocks, stop, rest) ← parsePipeline script 0 false 0 (t :: ts) fuel
        let (statements, rest) ← parseStatements script closing rest fuel
        return (.pipeline ⟨script.extent t.start stop, blocks⟩ :: statements, rest)

/-- Reads a function definition after its keyword `keyword`. -/
def parseFunction (script : Script) (kind : FunctionKind) (keyword : Token) (ts : List Token) :
    (fuel : Nat) → Except ParseError (FunctionDefinition × List Token)
  | 0 => script.fault 0 .exhausted
  | fuel + 1 =>
    match ts with
    | [] => script.fault keyword.start .missingFunctionName
    | name :: afterName => do
      if !name.kind.isNameLike then script.fault keyword.start .missingFunctionName
      let (parameters, rest) ←
        match skipTrivia afterName with
        | opener :: inner =>
          if opener.kind = .opening .paren then do
            let list ← parameterList script opener {} 0 inner
            pure (some list.parameters, skipTrivia list.rest)
          else pure (none, opener :: inner)
        | [] => pure (none, [])
      match rest with
      | opener :: inner =>
        if opener.kind = .opening .brace then
          let (body, rest) ← parseScriptBlock script (some opener) inner fuel
          let consumed := inner.take (inner.length - rest.length)
          let stop := (consumed.getLast?.map Token.stop).getD opener.stop
          return ({
            name := name.value
            kind := kind
            extent := script.extent keyword.start stop
            parameters := parameters
            body := body
            helpComments :=
              helpComments script (script.before (keyword :: ts)) consumed.dropLast }, rest)
        else script.fault keyword.start (.missingFunctionBody name.value)
      | [] => script.fault keyword.start (.missingFunctionBody name.value)

/-- Reads the rest of a statement that is kept as text. The answer has the script blocks in it and
    the offset after its last token. `depth` counts the open parentheses and brackets, `afterPipe`
    tells whether the last token was a pipe, after which a newline does not end the statement. -/
def parsePipeline (script : Script) (depth : Nat) (afterPipe : Bool) (stop : Nat) (ts : List Token) :
    (fuel : Nat) → Except ParseError (List ScriptBlock × Nat × List Token)
  | 0 => script.fault 0 .exhausted
  | fuel + 1 =>
    match ts with
    | [] => .ok ([], stop, [])
    | t :: ts =>
      match t.kind with
      | .closing .brace => .ok ([], stop, t :: ts)
      | .newline =>
        if depth = 0 ∧ !afterPipe then .ok ([], stop, t :: ts)
        else parsePipeline script depth afterPipe stop ts fuel
      | .semicolon =>
        if depth = 0 then .ok ([], stop, t :: ts)
        else parsePipeline script depth false t.stop ts fuel
      | .comment _ => parsePipeline script depth afterPipe stop ts fuel
      | .opening .brace => do
        let (block, rest) ← parseScriptBlock script (some t) ts fuel
        let (blocks, stop, rest) ←
          parsePipeline script depth false block.extent.endOffset rest fuel
        return (block :: blocks, stop, rest)
      | .opening .atBrace => do
        let (inner, stop, rest) ← parseHashtable script t ts fuel
        let (blocks, stop, rest) ← parsePipeline script depth false stop rest fuel
        return (inner ++ blocks, stop, rest)
      | .opening _ => parsePipeline script (depth + 1) false t.stop ts fuel
      | .closing _ => parsePipeline script (depth - 1) false t.stop ts fuel
      | kind => parsePipeline script depth (kind = .pipe) t.stop ts fuel

/-- Reads a hashtable literal after its opening brace `opener`. The answer has the script blocks in
    it and the offset after its closing brace. -/
def parseHashtable (script : Script) (opener : Token) (ts : List Token) :
    (fuel : Nat) → Except ParseError (List ScriptBlock × Nat × List Token)
  | 0 => script.fault 0 .exhausted
  | fuel + 1 =>
    match ts with
    | [] => script.fault opener.start .missingBrace
    | t :: ts =>
      match t.kind with
      | .closing .brace => .ok ([], t.stop, ts)
      | .opening .brace => do
        let (block, rest) ← parseScriptBlock script (some t) ts fuel
        let (blocks, stop, rest) ← parseHashtable script opener rest fuel
        return (block :: blocks, stop, rest)
      | .opening .atBrace => do
        let (inner, _, rest) ← parseHashtable script t ts fuel
        let (blocks, stop, rest) ← parseHashtable script opener rest fuel
        return (inner ++ blocks, stop, rest)
      | _ => parseHashtable script opener ts fuel

end

/-- The tree of a script given by its tokens. Each token takes at most three nested steps. -/
def parseTokens (script : Script) : Except ParseError ScriptBlock := do
  let (root, rest) ← parseScriptBlock script none script.tokens (3 * script.tokens.length + 3)
  match rest with
  | [] => return root
  | t :: _ => script.fault t.start (.unexpected t.value)

/-- A source without one byte order mark at its start. -/
def withoutMark : List Char → List Char
  | '\ufeff' :: cs => cs
  | cs => cs

/-- The tree of a source. A byte order mark at its start does not count. -/
def parse (source : String) (file : Option String) : Except ParseError ScriptBlock := do
  let source := withoutMark source.toList
  let tokens ← tokenize source
  parseTokens ⟨source, file, tokens⟩

end HelpAudit
