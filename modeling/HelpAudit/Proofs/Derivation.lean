import HelpAudit.Tree.Parser

/-! How the parser reads, as relations between the tokens it is given, what it builds and the tokens it
    leaves. There is one relation for each function of the parser and one rule for each way in which the
    function ends without an error; the bound on nested steps does not occur. Every successful run of the
    parser is a derivation, so what holds along derivations holds of every tree. -/

namespace HelpAudit

/-! ### Errors and results -/

theorem bind_eq_ok {ε α β : Type} {x : Except ε α} {f : α → Except ε β} {b : β} :
    x >>= f = .ok b ↔ ∃ a, x = .ok a ∧ f a = .ok b := by
  cases x with
  | error e => exact ⟨fun h => (nomatch h), fun ⟨_, h, _⟩ => (nomatch h)⟩
  | ok a => exact ⟨fun h => ⟨a, rfl, h⟩, fun ⟨_, rfl, h⟩ => h⟩

theorem exists_ok_of_isOk {ε α : Type} {x : Except ε α} (h : x.isOk = true) : ∃ a, x = .ok a := by
  cases x with
  | error e => cases h
  | ok a => exact ⟨a, rfl⟩

theorem exists_ok_of_any {ε α : Type} {x : Except ε α} {p : α → Bool}
    (h : x.toOption.any p = true) : ∃ a, x = .ok a ∧ p a = true := by
  cases x with
  | error e => cases h
  | ok a => exact ⟨a, rfl, h⟩

/-! ### The rules -/

/-- The nesting of parentheses and brackets after a token of another statement. -/
def depthAfter (kind : TokenKind) (depth : Nat) : Nat :=
  if kind.opensGroup then depth + 1 else if kind.closesGroup then depth - 1 else depth

/-- Whether a token ends another statement. -/
def EndsPipeline (depth : Nat) (afterPipe : Bool) (kind : TokenKind) : Prop :=
  kind = .closing .brace ∨ (kind = .newline ∧ depth = 0 ∧ afterPipe = false) ∨
    (kind = .semicolon ∧ depth = 0)

theorem not_endsPipeline_of_code {kind : TokenKind} (hclose : kind ≠ .closing .brace)
    (hcode : kind.isSeparator = false) (depth : Nat) (afterPipe : Bool) :
    ¬ EndsPipeline depth afterPipe kind := by
  rintro (h | ⟨h, -⟩ | ⟨h, -⟩)
  · exact hclose h
  · rw [h] at hcode; cases hcode
  · rw [h] at hcode; cases hcode

theorem isTrivia_of_code {kind : TokenKind} (hcode : kind.isSeparator = false) :
    kind.isTrivia = false := by
  cases kind with
  | semicolon => rfl
  | _ => exact hcode

theorem isSeparator_of_isTrivia {kind : TokenKind} (h : kind.isTrivia = true) :
    kind.isSeparator = true := by
  cases kind with
  | semicolon => rfl
  | _ => exact h

/-- Whether a token is an opening brace with or without `@`. -/
def OpensBrace (kind : TokenKind) : Prop := kind = .opening .brace ∨ kind = .opening .atBrace

/-- The parameters in parentheses after a function's name, if there are any, and what follows them and
    the trivia behind. -/
def inlineParameters (script : Script) (ts : List Token) :
    Except ParseError (Option (List Parameter) × List Token) :=
  match skipTrivia ts with
  | opener :: inner =>
    if opener.kind = .opening .paren then do
      let list ← parameterList script opener {} 0 inner
      pure (some list.parameters, skipTrivia list.rest)
    else pure (none, opener :: inner)
  | [] => pure (none, [])

/-- The extent of a body without named blocks that starts with the first of the tokens. -/
def bodyExtent (script : Script) (ts : List Token) (statements : List Statement) : Extent :=
  let bodyStart := (ts.head?.map Token.start).getD (Text.byteLength script.source)
  script.extent bodyStart
    (max ((statements.getLast?.map (·.extent.endOffset)).getD bodyStart) bodyStart)

/-- The definition of a function with the body that was read between `opener` and `rest`. -/
def functionOf (script : Script) (kind : FunctionKind) (keyword name : Token) (ts : List Token)
    (parameters : Option (List Parameter)) (opener : Token) (inner : List Token) (body : ScriptBlock)
    (rest : List Token) : FunctionDefinition :=
  let consumed := inner.take (inner.length - rest.length)
  let stop := (consumed.getLast?.map Token.stop).getD opener.stop
  { name := name.value
    kind := kind
    extent := script.extent keyword.start stop
    parameters := parameters
    body := body
    helpComments := helpComments script (script.before (keyword :: ts)) consumed.dropLast }

mutual

/-- A script block from inside its braces on, or a whole script, is read. -/
inductive ReadsBlock (script : Script) :
    Option Token → List Token → ScriptBlock → List Token → Prop where
  | whole {ts after params blocks rest} :
    paramBlock script ts = .ok (params, after) →
    ReadsBody script false (skipSeparators after) blocks rest →
    ReadsBlock script none ts
      ⟨script.extent 0 (Text.byteLength script.source), params, blocks⟩ rest
  | braced {opener ts after params blocks close rest} :
    paramBlock script ts = .ok (params, after) →
    ReadsBody script true (skipSeparators after) blocks (close :: rest) →
    close.kind = .closing .brace →
    ReadsBlock script (some opener) ts ⟨script.extent opener.start close.stop, params, blocks⟩ rest

/-- The body of a script block is read. -/
inductive ReadsBody (script : Script) : Bool → List Token → List NamedBlock → List Token → Prop where
  | named {closing ts blocks rest} :
    (namedBlockKind? ts).isSome = true →
    ReadsNamed script closing ts blocks rest →
    ReadsBody script closing ts blocks rest
  | unnamed {closing ts statements rest} :
    (namedBlockKind? ts).isSome = false →
    ReadsStatements script closing ts statements rest →
    ReadsBody script closing ts [⟨.endBlock, true, bodyExtent script ts statements, statements⟩] rest

/-- Named blocks are read up to the end or the closing brace around them. -/
inductive ReadsNamed (script : Script) :
    Bool → List Token → List NamedBlock → List Token → Prop where
  | finish {closing ts} :
    skipSeparators ts = [] →
    ReadsNamed script closing ts [] []
  | closed {ts close rest} :
    skipSeparators ts = close :: rest →
    close.kind = .closing .brace →
    ReadsNamed script true ts [] (close :: rest)
  | block {closing ts t after kind opener inner statements close behind blocks rest} :
    skipSeparators ts = t :: after →
    t.kind = .keyword (.block kind) →
    skipTrivia after = opener :: inner →
    opener.kind = .opening .brace →
    ReadsStatements script true inner statements (close :: behind) →
    close.kind = .closing .brace →
    ReadsNamed script closing behind blocks rest →
    ReadsNamed script closing ts
      (⟨kind, false, script.extent t.start close.stop, statements⟩ :: blocks) rest

/-- Statements are read up to the end or the closing brace around them. -/
inductive ReadsStatements (script : Script) :
    Bool → List Token → List Statement → List Token → Prop where
  | finish {closing ts} :
    skipSeparators ts = [] →
    ReadsStatements script closing ts [] []
  | closed {ts close rest} :
    skipSeparators ts = close :: rest →
    close.kind = .closing .brace →
    ReadsStatements script true ts [] (close :: rest)
  | function {closing ts t after kind definition behind statements rest} :
    skipSeparators ts = t :: after →
    t.kind = .keyword (.declare kind) →
    ReadsFunction script kind t after definition behind →
    ReadsStatements script closing behind statements rest →
    ReadsStatements script closing ts (.function definition :: statements) rest
  | pipeline {closing ts t after blocks stop behind statements rest} :
    skipSeparators ts = t :: after →
    t.kind ≠ .closing .brace →
    (∀ kind, t.kind ≠ .keyword (.declare kind)) →
    ReadsPipeline script 0 false 0 (t :: after) blocks stop behind →
    ReadsStatements script closing behind statements rest →
    ReadsStatements script closing ts
      (.pipeline ⟨script.extent t.start stop, blocks⟩ :: statements) rest

/-- A function definition is read after its keyword. -/
inductive ReadsFunction (script : Script) :
    FunctionKind → Token → List Token → FunctionDefinition → List Token → Prop where
  | mk {kind keyword name ts parameters opener inner body rest} :
    name.kind.isNameLike = true →
    inlineParameters script ts = .ok (parameters, opener :: inner) →
    opener.kind = .opening .brace →
    ReadsBlock script (some opener) inner body rest →
    ReadsFunction script kind keyword (name :: ts)
      (functionOf script kind keyword name (name :: ts) parameters opener inner body rest) rest

/-- The rest of another statement is read; the number is the offset after its last token. -/
inductive ReadsPipeline (script : Script) :
    Nat → Bool → Nat → List Token → List ScriptBlock → Nat → List Token → Prop where
  | finish {depth afterPipe stop} :
    ReadsPipeline script depth afterPipe stop [] [] stop []
  | ended {depth afterPipe stop t ts} :
    EndsPipeline depth afterPipe t.kind →
    ReadsPipeline script depth afterPipe stop (t :: ts) [] stop (t :: ts)
  | trivia {depth afterPipe stop t ts blocks last rest} :
    t.kind.isTrivia = true →
    ¬ EndsPipeline depth afterPipe t.kind →
    ReadsPipeline script depth afterPipe stop ts blocks last rest →
    ReadsPipeline script depth afterPipe stop (t :: ts) blocks last rest
  | block {depth afterPipe stop t ts block behind blocks last rest} :
    t.kind = .opening .brace →
    ReadsBlock script (some t) ts block behind →
    ReadsPipeline script depth false block.extent.endOffset behind blocks last rest →
    ReadsPipeline script depth afterPipe stop (t :: ts) (block :: blocks) last rest
  | hashtable {depth afterPipe stop t ts inner close behind blocks last rest} :
    t.kind = .opening .atBrace →
    ReadsHashtable script ts inner close behind →
    ReadsPipeline script depth false close behind blocks last rest →
    ReadsPipeline script depth afterPipe stop (t :: ts) (inner ++ blocks) last rest
  | token {depth afterPipe stop t ts blocks last rest} :
    t.kind.isTrivia = false →
    ¬ OpensBrace t.kind →
    ¬ EndsPipeline depth afterPipe t.kind →
    ReadsPipeline script (depthAfter t.kind depth) (t.kind = .pipe) t.stop ts blocks last rest →
    ReadsPipeline script depth afterPipe stop (t :: ts) blocks last rest

/-- A hashtable literal is read from inside its braces on; the number is the offset after its closing
    brace. -/
inductive ReadsHashtable (script : Script) :
    List Token → List ScriptBlock → Nat → List Token → Prop where
  | closed {t ts} :
    t.kind = .closing .brace →
    ReadsHashtable script (t :: ts) [] t.stop ts
  | block {t ts block behind blocks stop rest} :
    t.kind = .opening .brace →
    ReadsBlock script (some t) ts block behind →
    ReadsHashtable script behind blocks stop rest →
    ReadsHashtable script (t :: ts) (block :: blocks) stop rest
  | nested {t ts inner close behind blocks stop rest} :
    t.kind = .opening .atBrace →
    ReadsHashtable script ts inner close behind →
    ReadsHashtable script behind blocks stop rest →
    ReadsHashtable script (t :: ts) (inner ++ blocks) stop rest
  | token {t ts blocks stop rest} :
    t.kind ≠ .closing .brace →
    ¬ OpensBrace t.kind →
    ReadsHashtable script ts blocks stop rest →
    ReadsHashtable script (t :: ts) blocks stop rest

end

/-! ### Every successful run is a derivation -/

/-- What the functions of the parser read within `fuel` nested steps is derivable. -/
structure Derivable (script : Script) (fuel : Nat) : Prop where
  block : ∀ {opener ts block rest},
    parseScriptBlock script opener ts fuel = .ok (block, rest) →
    ReadsBlock script opener ts block rest
  named : ∀ {closing ts blocks rest},
    parseNamedBlocks script closing ts fuel = .ok (blocks, rest) →
    ReadsNamed script closing ts blocks rest
  statements : ∀ {closing ts statements rest},
    parseStatements script closing ts fuel = .ok (statements, rest) →
    ReadsStatements script closing ts statements rest
  function : ∀ {kind keyword ts definition rest},
    parseFunction script kind keyword ts fuel = .ok (definition, rest) →
    ReadsFunction script kind keyword ts definition rest
  pipeline : ∀ {depth afterPipe stop ts blocks last rest},
    parsePipeline script depth afterPipe stop ts fuel = .ok (blocks, last, rest) →
    ReadsPipeline script depth afterPipe stop ts blocks last rest
  hashtable : ∀ {opener ts blocks stop rest},
    parseHashtable script opener ts fuel = .ok (blocks, stop, rest) →
    ReadsHashtable script ts blocks stop rest

theorem namedBlockKind?_cons {t opener : Token} {ts inner : List Token} {kind : BlockKind}
    (hkind : namedBlockKind? (t :: ts) = some kind) (hopener : skipTrivia ts = opener :: inner) :
    t.kind = .keyword (.block kind) ∧ opener.kind = .opening .brace := by
  simp only [namedBlockKind?] at hkind
  split at hkind
  · split at hkind
    · rename_i hnext
      cases hkind
      simp only [nextKind?, hopener, List.head?_cons, Option.map_some, Option.some.injEq] at hnext
      exact ⟨‹_›, hnext⟩
    · cases hkind
  · cases hkind

/-- The end of a script block: its closing brace, or the end of a whole script. -/
def closeBlock (script : Script) (opener : Option Token) (params : Option ParamBlock)
    (blocks : List NamedBlock) (behind : List Token) : Except ParseError (ScriptBlock × List Token) :=
  match opener, behind with
  | none, ts => pure (⟨script.extent 0 (Text.byteLength script.source), params, blocks⟩, ts)
  | some opener, [] => script.fault opener.start .missingBrace
  | some opener, t :: ts =>
    if t.kind = .closing .brace then
      pure (⟨script.extent opener.start t.stop, params, blocks⟩, ts)
    else script.fault opener.start .missingBrace

/-- A body that was read and its end make a block that was read. -/
theorem readsBlock_of_body {script : Script} {opener : Option Token} {ts after rest behind : List Token}
    {params : Option ParamBlock} {blocks : List NamedBlock} {block : ScriptBlock}
    (hparams : paramBlock script ts = .ok (params, after))
    (hbody : ReadsBody script opener.isSome (skipSeparators after) blocks behind)
    (h : closeBlock script opener params blocks behind = .ok (block, rest)) :
    ReadsBlock script opener ts block rest := by
  cases opener with
  | none =>
    cases h
    exact .whole hparams hbody
  | some opener =>
    cases behind with
    | nil => cases h
    | cons t behind =>
      rw [closeBlock] at h
      split at h
      · cases h
        exact .braced hparams hbody ‹_›
      · cases h

/-- The body of a function, after its name and parameters. -/
def parseFunctionBody (script : Script) (kind : FunctionKind) (keyword name : Token) (ts : List Token)
    (fuel : Nat) (parameters : Option (List Parameter)) :
    List Token → Except ParseError (FunctionDefinition × List Token)
  | opener :: inner =>
    if opener.kind = .opening .brace then do
      let (body, rest) ← parseScriptBlock script (some opener) inner fuel
      return (functionOf script kind keyword name ts parameters opener inner body rest, rest)
    else script.fault keyword.start (.missingFunctionBody name.value)
  | [] => script.fault keyword.start (.missingFunctionBody name.value)

/-- A function definition is its name, its parameters in parentheses and its body. -/
theorem parseFunction_cons (script : Script) (kind : FunctionKind) (keyword name : Token)
    (ts : List Token) (fuel : Nat) : parseFunction script kind keyword (name :: ts) (fuel + 1) =
      if name.kind.isNameLike then do
        let (parameters, rest) ← inlineParameters script ts
        parseFunctionBody script kind keyword name (name :: ts) fuel parameters rest
      else script.fault keyword.start .missingFunctionName := by
  rw [parseFunction, inlineParameters]
  cases name.kind.isNameLike with
  | false => rfl
  | true =>
    cases skipTrivia ts with
    | nil => rfl
    | cons opener inner =>
      by_cases hparen : opener.kind = .opening .paren
      · simp only [if_pos hparen]
        cases parameterList script opener {} 0 inner with
        | error e => rfl
        | ok list => cases hrest : skipTrivia list.rest <;> simp [hrest, bind, Except.bind, pure,
            Except.pure, parseFunctionBody, functionOf]
      · simp only [if_neg hparen]
        rfl

section Steps

variable {script : Script} {fuel : Nat} (ih : Derivable script fuel)

include ih

theorem Derivable.block_step {opener : Option Token} {ts : List Token} {block : ScriptBlock}
    {rest : List Token} (h : parseScriptBlock script opener ts (fuel + 1) = .ok (block, rest)) :
    ReadsBlock script opener ts block rest := by
  rw [parseScriptBlock] at h
  obtain ⟨⟨params, after⟩, hparams, h⟩ := bind_eq_ok.mp h
  simp only at h
  -- both kinds of bodies go on with the closing brace
  split at h
  · obtain ⟨⟨blocks, behind⟩, hblocks, h⟩ := bind_eq_ok.mp h
    exact readsBlock_of_body hparams (.named ‹_› (ih.named hblocks)) h
  · obtain ⟨⟨statements, behind⟩, hstatements, h⟩ := bind_eq_ok.mp h
    exact readsBlock_of_body hparams
      (.unnamed (Bool.eq_false_iff.mpr ‹_›) (ih.statements hstatements)) h

/-- One step of the parser for named blocks is one rule. -/
theorem Derivable.named_step {closing : Bool} {ts : List Token} {blocks : List NamedBlock}
    {rest : List Token} (h : parseNamedBlocks script closing ts (fuel + 1) = .ok (blocks, rest)) :
    ReadsNamed script closing ts blocks rest := by
  rw [parseNamedBlocks] at h
  split at h
  · cases h
    exact .finish ‹_›
  · rename_i t after hskip
    split at h
    · rename_i hclose
      cases h
      obtain ⟨rfl, hkind⟩ := hclose
      exact .closed hskip hkind
    · split at h
      · rename_i kind opener inner hkind hopener
        obtain ⟨⟨statements, behind⟩, hstatements, h⟩ := bind_eq_ok.mp h
        simp only at h
        split at h
        · split at h
          · rename_i hclose
            obtain ⟨⟨blocks, behind⟩, hblocks, h⟩ := bind_eq_ok.mp h
            cases h
            obtain ⟨hkeyword, hbrace⟩ := namedBlockKind?_cons hkind hopener
            exact .block hskip hkeyword hopener hbrace (ih.statements hstatements) hclose
              (ih.named hblocks)
          · cases h
        · cases h
      · cases h

/-- One step of the parser for statements is one rule. -/
theorem Derivable.statements_step {closing : Bool} {ts : List Token} {statements : List Statement}
    {rest : List Token} (h : parseStatements script closing ts (fuel + 1) = .ok (statements, rest)) :
    ReadsStatements script closing ts statements rest := by
  rw [parseStatements] at h
  split at h
  · cases h
    exact .finish ‹_›
  · rename_i t after hskip
    split at h
    · split at h
      · rename_i hkind hclosing
        cases h
        rw [hclosing]
        exact .closed hskip hkind
      · cases h
    · rename_i kind hkind
      obtain ⟨⟨definition, behind⟩, hfunction, h⟩ := bind_eq_ok.mp h
      obtain ⟨⟨others, last⟩, hothers, h⟩ := bind_eq_ok.mp h
      cases h
      exact .function hskip hkind (ih.function hfunction) (ih.statements hothers)
    · rename_i hclose hdeclare
      obtain ⟨⟨blocks, stop, behind⟩, hpipeline, h⟩ := bind_eq_ok.mp h
      obtain ⟨⟨others, last⟩, hothers, h⟩ := bind_eq_ok.mp h
      cases h
      exact .pipeline hskip hclose hdeclare (ih.pipeline hpipeline) (ih.statements hothers)

/-- One step of the parser for functions is one rule. -/
theorem Derivable.function_step {kind : FunctionKind} {keyword : Token} {ts : List Token}
    {definition : FunctionDefinition} {rest : List Token}
    (h : parseFunction script kind keyword ts (fuel + 1) = .ok (definition, rest)) :
    ReadsFunction script kind keyword ts definition rest := by
  cases ts with
  | nil => rw [parseFunction] at h; cases h
  | cons name afterName =>
    rw [parseFunction_cons] at h
    split at h
    · rename_i hname
      obtain ⟨⟨parameters, behind⟩, hparameters, h⟩ := bind_eq_ok.mp h
      cases behind with
      | nil => cases h
      | cons opener inner =>
        simp only [parseFunctionBody] at h
        split at h
        · obtain ⟨⟨body, behind⟩, hbody, h⟩ := bind_eq_ok.mp h
          cases h
          exact .mk hname hparameters ‹_› (ih.block hbody)
        · cases h
    · cases h

/-- One step of the parser for hashtable literals is one rule. -/
theorem Derivable.hashtable_step {opener : Token} {ts : List Token} {blocks : List ScriptBlock}
    {stop : Nat} {rest : List Token}
    (h : parseHashtable script opener ts (fuel + 1) = .ok (blocks, stop, rest)) :
    ReadsHashtable script ts blocks stop rest := by
  cases ts with
  | nil => rw [parseHashtable] at h; cases h
  | cons t after =>
    rw [parseHashtable] at h
    split at h
    · cases h
      exact .closed ‹_›
    · rename_i hkind
      obtain ⟨⟨block, behind⟩, hblock, h⟩ := bind_eq_ok.mp h
      obtain ⟨⟨others, last, left⟩, hothers, h⟩ := bind_eq_ok.mp h
      cases h
      exact .block hkind (ih.block hblock) (ih.hashtable hothers)
    · rename_i hkind
      obtain ⟨⟨inner, close, behind⟩, hinner, h⟩ := bind_eq_ok.mp h
      obtain ⟨⟨others, last, left⟩, hothers, h⟩ := bind_eq_ok.mp h
      cases h
      exact .nested hkind (ih.hashtable hinner) (ih.hashtable hothers)
    · rename_i hclose hbrace hat
      exact .token hclose (fun h => h.elim hbrace hat) (ih.hashtable h)

theorem Derivable.token_step {depth : Nat} {afterPipe : Bool} {stop : Nat} {t : Token}
    {kind : TokenKind} {after : List Token} {blocks : List ScriptBlock} {last : Nat} {rest : List Token}
    (hkind : t.kind = kind) (htrivia : kind.isTrivia = false) (hbrace : ¬ OpensBrace kind)
    (hend : ¬ EndsPipeline depth afterPipe kind)
    (h : parsePipeline script (depthAfter kind depth) (kind = .pipe) t.stop after fuel =
      .ok (blocks, last, rest)) :
    ReadsPipeline script depth afterPipe stop (t :: after) blocks last rest := by
  subst hkind
  exact .token htrivia hbrace hend (ih.pipeline h)

/-- One step of the parser for other statements is one rule, chosen by the kind of the token. -/
theorem Derivable.pipeline_step {depth : Nat} {afterPipe : Bool} {stop : Nat} {ts : List Token}
    {blocks : List ScriptBlock} {last : Nat} {rest : List Token}
    (h : parsePipeline script depth afterPipe stop ts (fuel + 1) = .ok (blocks, last, rest)) :
    ReadsPipeline script depth afterPipe stop ts blocks last rest := by
  cases ts with
  | nil =>
    rw [parsePipeline] at h
    cases h
    exact .finish
  | cons t after =>
    rw [parsePipeline] at h
    cases hkind : t.kind with
    | newline =>
      rw [hkind] at h
      simp only at h
      split at h
      · rename_i hends
        cases h
        exact .ended (.inr (.inl ⟨hkind, hends.1, by simpa using hends.2⟩))
      · rename_i hends
        exact .trivia (by rw [hkind]; rfl) (by simpa [EndsPipeline, hkind] using hends)
          (ih.pipeline h)
    -- inside of parentheses a semicolon is a token like others, and a line end is trivia
    | semicolon =>
      rw [hkind] at h
      simp only at h
      split at h
      · cases h
        exact .ended (.inr (.inr ⟨hkind, ‹_›⟩))
      · rename_i hdepth
        exact ih.token_step hkind rfl (by simp [OpensBrace]) (by simp [EndsPipeline, hdepth]) h
    | comment style =>
      rw [hkind] at h
      exact .trivia (by rw [hkind]; rfl) (by simp [EndsPipeline, hkind]) (ih.pipeline h)
    | opening opener =>
      rw [hkind] at h
      cases opener with
      | brace =>
        obtain ⟨⟨block, behind⟩, hblock, h⟩ := bind_eq_ok.mp h
        obtain ⟨⟨others, final, left⟩, hothers, h⟩ := bind_eq_ok.mp h
        cases h
        exact .block hkind (ih.block hblock) (ih.pipeline hothers)
      | atBrace =>
        obtain ⟨⟨inner, close, behind⟩, hinner, h⟩ := bind_eq_ok.mp h
        obtain ⟨⟨others, final, left⟩, hothers, h⟩ := bind_eq_ok.mp h
        cases h
        exact .hashtable hkind (ih.hashtable hinner) (ih.pipeline hothers)
      | _ =>
        exact ih.token_step hkind rfl (by simp [OpensBrace]) (by simp [EndsPipeline]) h
    | closing closer =>
      rw [hkind] at h
      cases closer with
      | brace =>
        cases h
        exact .ended (.inl hkind)
      | _ =>
        exact ih.token_step hkind rfl (by simp [OpensBrace]) (by simp [EndsPipeline]) h
    | _ =>
      rw [hkind] at h
      exact ih.token_step hkind rfl (by simp [OpensBrace]) (by simp [EndsPipeline]) h

end Steps

/-- Whatever the bound, a run that succeeds is a derivation. -/
theorem derivable (script : Script) : ∀ fuel, Derivable script fuel
  | 0 => by
    constructor <;> intros <;> rename_i h
    · rw [parseScriptBlock] at h; cases h
    · rw [parseNamedBlocks] at h; cases h
    · rw [parseStatements] at h; cases h
    · rw [parseFunction] at h; cases h
    · rw [parsePipeline] at h; cases h
    · rw [parseHashtable] at h; cases h
  | fuel + 1 => by
    have ih := derivable script fuel
    exact ⟨ih.block_step, ih.named_step, ih.statements_step, ih.function_step, ih.pipeline_step,
      ih.hashtable_step⟩

/-! ### What is left is the end of what was given -/

theorem skipTrivia_suffix (ts : List Token) : skipTrivia ts <:+ ts := List.dropWhile_suffix _

theorem skipSeparators_suffix (ts : List Token) : skipSeparators ts <:+ ts := List.dropWhile_suffix _

theorem skipSeparators_cons_of_code {t : Token} (ts : List Token) (h : t.kind.isSeparator = false) :
    skipSeparators (t :: ts) = t :: ts := by
  rw [skipSeparators, List.dropWhile_cons, h]
  rfl

theorem skipTrivia_cons_of_trivia {t : Token} (ts : List Token) (h : t.kind.isTrivia = true) :
    skipTrivia (t :: ts) = skipTrivia ts := by
  rw [skipTrivia, List.dropWhile_cons, if_pos h]
  rfl

theorem skipTrivia_cons_of_code {t : Token} (ts : List Token) (h : t.kind.isTrivia = false) :
    skipTrivia (t :: ts) = t :: ts := by
  rw [skipTrivia, List.dropWhile_cons, h]
  rfl

theorem suffix_of_cons_suffix {t : Token} {a b : List Token} (h : t :: a <:+ b) : a <:+ b :=
  (List.suffix_cons t a).trans h

theorem suffix_of_cons_suffix_cons {t u : Token} {a b : List Token} (h : t :: a <:+ u :: b) :
    a <:+ b := by
  rcases List.suffix_cons_iff.mp h with heq | h
  · cases heq
    exact List.suffix_refl a
  · exact suffix_of_cons_suffix h

/-- A parameter list ends with a closing parenthesis. -/
theorem parameterList_split {script : Script} {opener : Token} : ∀ {ts : List Token}
    {segment : Segment} {depth : Nat} {list : ParameterList},
    parameterList script opener segment depth ts = .ok list →
    list.close.kind = .closing .paren ∧ ∃ used, ts = used ++ list.close :: list.rest
  | [], _, _, _, h => by rw [parameterList] at h; cases h
  | t :: ts, segment, depth, list, h => by
    rw [parameterList] at h
    split at h
    · rename_i hclose
      cases h
      exact ⟨hclose.2, [], rfl⟩
    · split at h
      · obtain ⟨tail, htail, h⟩ := bind_eq_ok.mp h
        cases h
        obtain ⟨hkind, used, rfl⟩ := parameterList_split htail
        exact ⟨hkind, t :: used, rfl⟩
      · obtain ⟨hkind, used, rfl⟩ := parameterList_split h
        exact ⟨hkind, t :: used, rfl⟩

theorem parameterList_suffix {script : Script} {opener : Token} {ts : List Token} {segment : Segment}
    {depth : Nat} {list : ParameterList}
    (h : parameterList script opener segment depth ts = .ok list) : list.rest <:+ ts := by
  obtain ⟨-, used, rfl⟩ := parameterList_split h
  exact suffix_of_cons_suffix (List.suffix_append _ _)

/-- Attribute groups leave an end of the tokens they were given. -/
theorem attributeGroups_suffix {script : Script} : ∀ {ts : List Token} {current : Option (Token × Nat)}
    {attributes : List String} {rest : List Token},
    attributeGroups script current ts = .ok (attributes, rest) → rest <:+ ts
  | [], none, _, _, h => by rw [attributeGroups] at h; cases h; exact List.suffix_refl _
  | [], some _, _, _, h => by rw [attributeGroups] at h; cases h
  | t :: ts, none, _, _, h => by
    rw [attributeGroups] at h
    split at h
    · exact (attributeGroups_suffix h).trans (List.suffix_cons _ _)
    · split at h
      · exact (attributeGroups_suffix h).trans (List.suffix_cons _ _)
      · cases h
        exact List.suffix_refl _
  -- inside a group only the closing token at depth one starts afresh; all others are passed over
  | t :: ts, some (opener, depth), _, _, h => by
    rw [attributeGroups] at h
    split at h
    · exact (attributeGroups_suffix h).trans (List.suffix_cons _ _)
    · split at h
      · split at h
        · obtain ⟨⟨attributes, rest⟩, htail, h⟩ := bind_eq_ok.mp h
          cases h
          exact (attributeGroups_suffix htail).trans (List.suffix_cons _ _)
        · exact (attributeGroups_suffix h).trans (List.suffix_cons _ _)
      · exact (attributeGroups_suffix h).trans (List.suffix_cons _ _)

/-- Trivia before the attributes does not matter. -/
theorem attributeGroups_skipTrivia (script : Script) : ∀ ts : List Token,
    attributeGroups script none ts = attributeGroups script none (skipTrivia ts)
  | [] => rfl
  | t :: ts => by
    by_cases h : t.kind.isTrivia = true
    · rw [skipTrivia_cons_of_trivia ts h, attributeGroups, if_pos h,
        attributeGroups_skipTrivia script ts]
    · rw [skipTrivia_cons_of_code ts (Bool.eq_false_iff.mpr h)]

/-- A parameter block is read from the first token that is no trivia to a closing parenthesis. -/
theorem paramBlock_some {script : Script} {ts after : List Token} {block : ParamBlock}
    (h : paramBlock script ts = .ok (some block, after)) :
    ∃ first more opener inner list, skipTrivia ts = first :: more ∧ inner <:+ more ∧
      parameterList script opener {} 0 inner = .ok list ∧ list.rest = after ∧
      block.extent = script.extent first.start list.close.stop ∧
      block.parameters = list.parameters := by
  rw [paramBlock] at h
  obtain ⟨⟨attributes, rest⟩, hattributes, h⟩ := bind_eq_ok.mp h
  simp only at h
  split at h
  · rename_i keyword behind
    split at h
    · rename_i opener inner hkind hopener
      split at h
      · obtain ⟨list, hlist, h⟩ := bind_eq_ok.mp h
        -- the block starts behind the trivia, so that the extent has a first token
        rw [attributeGroups_skipTrivia] at hattributes
        have hkeyword := attributeGroups_suffix hattributes
        cases hfirst : skipTrivia ts with
        | nil =>
          rw [hfirst] at hkeyword
          exact absurd (List.suffix_nil.mp hkeyword) (List.cons_ne_nil _ _)
        | cons first more =>
          rw [hfirst] at hkeyword h
          cases h
          have hinner : opener :: inner <:+ behind := hopener ▸ skipTrivia_suffix behind
          exact ⟨first, more, opener, inner, list, rfl, (suffix_of_cons_suffix hinner).trans
            (suffix_of_cons_suffix_cons hkeyword), hlist, rfl, rfl, rfl⟩
      · cases h
    · cases h
  · cases h

theorem paramBlock_none {script : Script} {ts after : List Token}
    (h : paramBlock script ts = .ok (none, after)) : after = ts := by
  rw [paramBlock] at h
  obtain ⟨⟨attributes, rest⟩, hattributes, h⟩ := bind_eq_ok.mp h
  simp only at h
  split at h
  · split at h
    · split at h
      · obtain ⟨list, hlist, h⟩ := bind_eq_ok.mp h
        cases h
      · cases h; rfl
    · cases h; rfl
  · cases h; rfl

theorem paramBlock_suffix {script : Script} {ts after : List Token} {params : Option ParamBlock}
    (h : paramBlock script ts = .ok (params, after)) : after <:+ ts := by
  cases params with
  | none => obtain rfl := paramBlock_none h; exact List.suffix_refl _
  | some block =>
    obtain ⟨first, more, opener, inner, list, hfirst, hinner, hlist, rfl, -⟩ := paramBlock_some h
    have hmore : more <:+ ts := suffix_of_cons_suffix (hfirst ▸ skipTrivia_suffix ts)
    exact (parameterList_suffix hlist).trans (hinner.trans hmore)

theorem inlineParameters_suffix {script : Script} {ts after : List Token}
    {parameters : Option (List Parameter)} (h : inlineParameters script ts = .ok (parameters, after)) :
    after <:+ ts := by
  rw [inlineParameters] at h
  have hskip := skipTrivia_suffix ts
  split at h
  · rename_i opener inner hopener
    rw [hopener] at hskip
    split at h
    · obtain ⟨list, hlist, h⟩ := bind_eq_ok.mp h
      cases h
      exact (skipTrivia_suffix _).trans ((parameterList_suffix hlist).trans
        (suffix_of_cons_suffix hskip))
    · cases h
      exact hskip
  · cases h
    exact List.nil_suffix

/-- What is left behind the first of the tokens that follow separators. -/
theorem suffix_of_skipSeparators {ts after : List Token} {t : Token}
    (h : skipSeparators ts = t :: after) : t :: after <:+ ts := h ▸ skipSeparators_suffix ts

mutual

/-- What is left behind a block is an end of what was given; the same for the other relations, in one mutual
    induction. -/
theorem ReadsBlock.suffix {script : Script} {opener : Option Token} {ts : List Token}
    {block : ScriptBlock} {rest : List Token} : ReadsBlock script opener ts block rest → rest <:+ ts
  | .whole hparams hbody =>
    hbody.suffix.trans ((skipSeparators_suffix _).trans (paramBlock_suffix hparams))
  | .braced hparams hbody _ => suffix_of_cons_suffix
    (hbody.suffix.trans ((skipSeparators_suffix _).trans (paramBlock_suffix hparams)))

theorem ReadsBody.suffix {script : Script} {closing : Bool} {ts : List Token}
    {blocks : List NamedBlock} {rest : List Token} :
    ReadsBody script closing ts blocks rest → rest <:+ ts
  | .named _ hnamed => hnamed.suffix
  | .unnamed _ hstatements => hstatements.suffix

theorem ReadsNamed.suffix {script : Script} {closing : Bool} {ts : List Token}
    {blocks : List NamedBlock} {rest : List Token} :
    ReadsNamed script closing ts blocks rest → rest <:+ ts
  | .finish _ => List.nil_suffix
  | .closed hskip _ => suffix_of_skipSeparators hskip
  | .block hskip _ hopener _ hstatements _ hblocks => by
    have hinner := suffix_of_cons_suffix (hopener ▸ skipTrivia_suffix _)
    have hbehind := suffix_of_cons_suffix (hstatements.suffix.trans hinner)
    exact hblocks.suffix.trans (hbehind.trans (suffix_of_cons_suffix
      (suffix_of_skipSeparators hskip)))

theorem ReadsStatements.suffix {script : Script} {closing : Bool} {ts : List Token}
    {statements : List Statement} {rest : List Token} :
    ReadsStatements script closing ts statements rest → rest <:+ ts
  | .finish _ => List.nil_suffix
  | .closed hskip _ => suffix_of_skipSeparators hskip
  | .function hskip _ hfunction hothers => hothers.suffix.trans (hfunction.suffix.trans
    (suffix_of_cons_suffix (suffix_of_skipSeparators hskip)))
  | .pipeline hskip _ _ hpipeline hothers =>
    hothers.suffix.trans (hpipeline.suffix.trans (suffix_of_skipSeparators hskip))

theorem ReadsFunction.suffix {script : Script} {kind : FunctionKind} {keyword : Token}
    {ts : List Token} {definition : FunctionDefinition} {rest : List Token} :
    ReadsFunction script kind keyword ts definition rest → rest <:+ ts
  | .mk _ hparameters _ hbody => hbody.suffix.trans ((suffix_of_cons_suffix
    (inlineParameters_suffix hparameters)).trans (List.suffix_cons _ _))

theorem ReadsPipeline.suffix {script : Script} {depth : Nat} {afterPipe : Bool} {stop : Nat}
    {ts : List Token} {blocks : List ScriptBlock} {last : Nat} {rest : List Token} :
    ReadsPipeline script depth afterPipe stop ts blocks last rest → rest <:+ ts
  | .finish => List.suffix_refl _
  | .ended _ => List.suffix_refl _
  | .trivia _ _ hrest => hrest.suffix.trans (List.suffix_cons _ _)
  | .block _ hblock hrest => hrest.suffix.trans (hblock.suffix.trans (List.suffix_cons _ _))
  | .hashtable _ hinner hrest => hrest.suffix.trans (hinner.suffix.trans (List.suffix_cons _ _))
  | .token _ _ _ hrest => hrest.suffix.trans (List.suffix_cons _ _)

theorem ReadsHashtable.suffix {script : Script} {ts : List Token} {blocks : List ScriptBlock}
    {stop : Nat} {rest : List Token} : ReadsHashtable script ts blocks stop rest → rest <:+ ts
  | .closed _ => List.suffix_cons _ _
  | .block _ hblock hrest => hrest.suffix.trans (hblock.suffix.trans (List.suffix_cons _ _))
  | .nested _ hinner hrest => hrest.suffix.trans (hinner.suffix.trans (List.suffix_cons _ _))
  | .token _ _ hrest => hrest.suffix.trans (List.suffix_cons _ _)

end

/-- A script block in braces ends with a closing brace, right before what is left. -/
theorem ReadsBlock.split {script : Script} {opener : Token} {ts : List Token} {block : ScriptBlock}
    {rest : List Token} (h : ReadsBlock script (some opener) ts block rest) :
    ∃ used close, ts = used ++ close :: rest ∧ close.kind = .closing .brace ∧
      block.extent = script.extent opener.start close.stop := by
  cases h with
  | braced hparams hbody hclose =>
    obtain ⟨used, hused⟩ :=
      hbody.suffix.trans ((skipSeparators_suffix _).trans (paramBlock_suffix hparams))
    exact ⟨used, _, hused.symm, hclose, rfl⟩

/-- The tokens read are those before the ones left. -/
theorem take_consumed (used rest : List Token) :
    (used ++ rest).take ((used ++ rest).length - rest.length) = used := by
  rw [List.length_append, Nat.add_sub_cancel, List.take_left]

/-- A function ends with the closing brace of its body. -/
theorem functionOf_extent (script : Script) (kind : FunctionKind) (keyword name : Token)
    (ts : List Token) (parameters : Option (List Parameter)) (opener : Token)
    (used : List Token) (close : Token) (body : ScriptBlock) (rest : List Token) :
    (functionOf script kind keyword name ts parameters opener (used ++ close :: rest) body
      rest).extent = script.extent keyword.start close.stop := by
  have hconsumed := take_consumed (used ++ [close]) rest
  rw [List.append_assoc, List.singleton_append] at hconsumed
  simp only [functionOf, hconsumed, List.getLast?_concat, Option.map_some, Option.getD_some]

theorem ReadsBlock.ends_closed {script : Script} {opener : Token} {ts : List Token} {block : ScriptBlock}
    {rest : List Token} (h : ReadsBlock script (some opener) ts block rest) :
    ∃ close, close :: rest <:+ ts ∧ close.kind = .closing .brace ∧
      block.extent = script.extent opener.start close.stop := by
  obtain ⟨used, close, rfl, hclose, hextent⟩ := h.split
  exact ⟨close, List.suffix_append used _, hclose, hextent⟩

/-- A function ends with a closing brace, right before what is left. -/
theorem ReadsFunction.ends_closed {script : Script} {kind : FunctionKind} {keyword : Token} {ts : List Token}
    {definition : FunctionDefinition} {rest : List Token}
    (h : ReadsFunction script kind keyword ts definition rest) :
    ∃ close, close :: rest <:+ ts ∧ close.kind = .closing .brace ∧
      definition.extent = script.extent keyword.start close.stop := by
  cases h with
  | mk hname hparameters hbrace hbody =>
    have hinner := suffix_of_cons_suffix (inlineParameters_suffix hparameters)
    obtain ⟨used, close, rfl, hclose, -⟩ := hbody.split
    exact ⟨close, (List.suffix_append used _).trans (hinner.trans (List.suffix_cons _ _)), hclose,
      functionOf_extent ..⟩

/-- A hashtable literal ends with a closing brace, right before what is left. -/
theorem ReadsHashtable.ends_closed {script : Script} {ts : List Token} {blocks : List ScriptBlock}
    {stop : Nat} {rest : List Token} : ReadsHashtable script ts blocks stop rest →
    ∃ close, close :: rest <:+ ts ∧ close.kind = .closing .brace ∧ stop = close.stop
  | .closed hkind => ⟨_, List.suffix_refl _, hkind, rfl⟩
  | .block _ hblock hrest => by
    obtain ⟨close, hclose, h⟩ := hrest.ends_closed
    exact ⟨close, hclose.trans (hblock.suffix.trans (List.suffix_cons _ _)), h⟩
  | .nested _ hinner hrest => by
    obtain ⟨close, hclose, h⟩ := hrest.ends_closed
    exact ⟨close, hclose.trans (hinner.suffix.trans (List.suffix_cons _ _)), h⟩
  | .token _ _ hrest => by
    obtain ⟨close, hclose, h⟩ := hrest.ends_closed
    exact ⟨close, hclose.trans (List.suffix_cons _ _), h⟩

theorem isSeparator_of_skipSeparators {ts after : List Token} {t : Token}
    (h : skipSeparators ts = t :: after) : t.kind.isSeparator = false := by
  have := List.head?_dropWhile_not (fun t : Token => t.kind.isSeparator) ts
  rw [skipSeparators] at h
  rw [h] at this
  simpa using this

/-- The tree of a script is read from all its tokens. -/
theorem readsBlock_of_parseTokens {script : Script} {root : ScriptBlock}
    (h : parseTokens script = .ok root) : ReadsBlock script none script.tokens root [] := by
  rw [parseTokens] at h
  obtain ⟨⟨block, rest⟩, hblock, h⟩ := bind_eq_ok.mp h
  cases rest with
  | nil =>
    cases h
    exact (derivable script _).block hblock
  | cons t rest => cases h

end HelpAudit
