import HelpAudit.Proofs.Derivation

/-! The steps of the parser, one equation for each way in which a function goes on. Proofs that follow
    the parser along its calls use these equations and do not open the functions. -/

namespace HelpAudit

variable {script : Script} {fuel : Nat} {t opener : Token} {ts after inner : List Token}

/-! ### Script blocks -/

/-- The body of a script block. -/
def parseBody (script : Script) (closing : Bool) (ts : List Token) (fuel : Nat) :
    Except ParseError (List NamedBlock × List Token) :=
  if (namedBlockKind? ts).isSome then parseNamedBlocks script closing ts fuel
  else do
    let (statements, rest) ← parseStatements script closing ts fuel
    return ([⟨.endBlock, true, bodyExtent script ts statements, statements⟩], rest)

/-- A script block is its parameter block, its body and its end. -/
theorem parseScriptBlock_succ (script : Script) (opener : Option Token) (ts : List Token) (fuel : Nat) :
    parseScriptBlock script opener ts (fuel + 1) = (do
      let (params, after) ← paramBlock script ts
      let (blocks, behind) ← parseBody script opener.isSome (skipSeparators after) fuel
      closeBlock script opener params blocks behind) := by
  rw [parseScriptBlock]
  refine bind_congr ?_
  rintro ⟨params, after⟩
  simp only [parseBody]
  split
  · rfl
  · rw [bind_assoc]
    rfl

/-! ### Named blocks -/

theorem parseNamedBlocks_nil (closing : Bool) (h : skipSeparators ts = []) :
    parseNamedBlocks script closing ts (fuel + 1) = .ok ([], []) := by
  rw [parseNamedBlocks, h]

theorem parseNamedBlocks_closed (h : skipSeparators ts = t :: after) (hclose : t.kind = .closing .brace) :
    parseNamedBlocks script true ts (fuel + 1) = .ok ([], t :: after) := by
  rw [parseNamedBlocks, h]
  exact if_pos ⟨rfl, hclose⟩

theorem parseNamedBlocks_unexpected {closing : Bool} (h : skipSeparators ts = t :: after)
    (hclose : ¬ (closing = true ∧ t.kind = .closing .brace)) (hkind : namedBlockKind? (t :: after) = none) :
    parseNamedBlocks script closing ts (fuel + 1) =
      script.fault t.start (.unexpectedInNamedBlocks t.value) := by
  rw [parseNamedBlocks, h]
  simp only [if_neg hclose, hkind]

/-- What follows the statements of a named block. -/
def parseNamedRest (script : Script) (closing : Bool) (kind : BlockKind) (keyword opener : Token)
    (statements : List Statement) (fuel : Nat) :
    List Token → Except ParseError (List NamedBlock × List Token)
  | close :: rest =>
    if close.kind = .closing .brace then do
      let (blocks, rest) ← parseNamedBlocks script closing rest fuel
      return (⟨kind, false, script.extent keyword.start close.stop, statements⟩ :: blocks, rest)
    else script.fault opener.start .missingBrace
  | [] => script.fault opener.start .missingBrace

theorem parseNamedBlocks_block {closing : Bool} {kind : BlockKind} (h : skipSeparators ts = t :: after)
    (hclose : ¬ (closing = true ∧ t.kind = .closing .brace))
    (hkind : namedBlockKind? (t :: after) = some kind) (hopener : skipTrivia after = opener :: inner) :
    parseNamedBlocks script closing ts (fuel + 1) = (do
      let (statements, behind) ← parseStatements script true inner fuel
      parseNamedRest script closing kind t opener statements fuel behind) := by
  rw [parseNamedBlocks, h]
  simp only [if_neg hclose, hkind, hopener]
  refine bind_congr ?_
  rintro ⟨statements, behind⟩
  cases behind <;> rfl

/-! ### Statements -/

theorem parseStatements_nil (closing : Bool) (h : skipSeparators ts = []) :
    parseStatements script closing ts (fuel + 1) = .ok ([], []) := by
  rw [parseStatements, h]

theorem parseStatements_closing {closing : Bool} (h : skipSeparators ts = t :: after)
    (hclose : t.kind = .closing .brace) : parseStatements script closing ts (fuel + 1) =
      if closing then .ok ([], t :: after) else script.fault t.start (.unexpected Closer.brace.text) := by
  rw [parseStatements, h]
  simp only [hclose]

theorem parseStatements_function {closing : Bool} {kind : FunctionKind}
    (h : skipSeparators ts = t :: after) (hkind : t.kind = .keyword (.declare kind)) :
    parseStatements script closing ts (fuel + 1) = do
      let (definition, behind) ← parseFunction script kind t after fuel
      let (statements, rest) ← parseStatements script closing behind fuel
      return (.function definition :: statements, rest) := by
  rw [parseStatements, h]
  simp only [hkind]

theorem parseStatements_pipeline {closing : Bool} (h : skipSeparators ts = t :: after)
    (hclose : t.kind ≠ .closing .brace) (hdeclare : ∀ kind, t.kind ≠ .keyword (.declare kind)) :
    parseStatements script closing ts (fuel + 1) = do
      let (blocks, stop, behind) ← parsePipeline script 0 false 0 (t :: after) fuel
      let (statements, rest) ← parseStatements script closing behind fuel
      return (.pipeline ⟨script.extent t.start stop, blocks⟩ :: statements, rest) := by
  rw [parseStatements, h]
  simp only

/-! ### Other statements -/

section Pipeline

variable {depth stop : Nat} {afterPipe : Bool}

/-- How a statement that is no function goes on at a token. -/
theorem pipeline_cases (depth : Nat) (afterPipe : Bool) (kind : TokenKind) :
    EndsPipeline depth afterPipe kind ∨ kind = .opening .brace ∨ kind = .opening .atBrace ∨
      (kind.isTrivia = true ∧ ¬ EndsPipeline depth afterPipe kind) ∨
      (kind.isTrivia = false ∧ ¬ OpensBrace kind ∧ ¬ EndsPipeline depth afterPipe kind) := by
  by_cases hends : EndsPipeline depth afterPipe kind
  · exact .inl hends
  by_cases hbrace : OpensBrace kind
  · rcases hbrace with hbrace | hbrace
    · exact .inr (.inl hbrace)
    · exact .inr (.inr (.inl hbrace))
  cases htrivia : kind.isTrivia with
  | true => exact .inr (.inr (.inr (.inl ⟨rfl, hends⟩)))
  | false => exact .inr (.inr (.inr (.inr ⟨rfl, hbrace, hends⟩)))

theorem parsePipeline_ended (h : EndsPipeline depth afterPipe t.kind) :
    parsePipeline script depth afterPipe stop (t :: ts) (fuel + 1) = .ok ([], stop, t :: ts) := by
  rw [parsePipeline]
  rcases h with h | ⟨h, hdepth, hpipe⟩ | ⟨h, hdepth⟩
  · simp only [h]
  · simp only [h, hdepth, hpipe]
    rfl
  · simp only [h, hdepth]
    rfl

theorem parsePipeline_brace (h : t.kind = .opening .brace) :
    parsePipeline script depth afterPipe stop (t :: ts) (fuel + 1) = do
      let (block, behind) ← parseScriptBlock script (some t) ts fuel
      let (blocks, stop, rest) ← parsePipeline script depth false block.extent.endOffset behind fuel
      return (block :: blocks, stop, rest) := by
  rw [parsePipeline]
  simp only [h]

theorem parsePipeline_atBrace (h : t.kind = .opening .atBrace) :
    parsePipeline script depth afterPipe stop (t :: ts) (fuel + 1) = do
      let (inner, stop, behind) ← parseHashtable script t ts fuel
      let (blocks, stop, rest) ← parsePipeline script depth false stop behind fuel
      return (inner ++ blocks, stop, rest) := by
  rw [parsePipeline]
  simp only [h]

theorem parsePipeline_trivia (htrivia : t.kind.isTrivia = true)
    (h : ¬ EndsPipeline depth afterPipe t.kind) :
    parsePipeline script depth afterPipe stop (t :: ts) (fuel + 1) =
      parsePipeline script depth afterPipe stop ts fuel := by
  rw [parsePipeline]
  cases hkind : t.kind with
  | newline =>
    refine if_neg fun hends => h (.inr (.inl ⟨hkind, hends.1, ?_⟩))
    simpa using hends.2
  | comment style => rfl
  | _ => rw [hkind] at htrivia; cases htrivia

/-- Any other token moves the end, the depth and the state behind a pipe. -/
theorem parsePipeline_token (htrivia : t.kind.isTrivia = false) (hbrace : ¬ OpensBrace t.kind)
    (h : ¬ EndsPipeline depth afterPipe t.kind) :
    parsePipeline script depth afterPipe stop (t :: ts) (fuel + 1) =
      parsePipeline script (depthAfter t.kind depth) (t.kind = .pipe) t.stop ts fuel := by
  rw [parsePipeline]
  cases hkind : t.kind with
  | newline => rw [hkind] at htrivia; cases htrivia
  | comment style => rw [hkind] at htrivia; cases htrivia
  | semicolon => exact if_neg fun hdepth => h (.inr (.inr ⟨hkind, hdepth⟩))
  | opening opener =>
    cases opener with
    | brace => exact absurd (.inl hkind) hbrace
    | atBrace => exact absurd (.inr hkind) hbrace
    | _ => rfl
  | closing closer =>
    cases closer with
    | brace => exact absurd (.inl hkind) h
    | _ => rfl
  | _ => rfl

end Pipeline

/-! ### Hashtables -/

theorem parseHashtable_nil (script : Script) (opener : Token) (fuel : Nat) :
    parseHashtable script opener [] (fuel + 1) = script.fault opener.start .missingBrace := by
  rw [parseHashtable]

theorem parseHashtable_closed (h : t.kind = .closing .brace) :
    parseHashtable script opener (t :: ts) (fuel + 1) = .ok ([], t.stop, ts) := by
  rw [parseHashtable]
  simp only [h]

theorem parseHashtable_block (h : t.kind = .opening .brace) :
    parseHashtable script opener (t :: ts) (fuel + 1) = do
      let (block, behind) ← parseScriptBlock script (some t) ts fuel
      let (blocks, stop, rest) ← parseHashtable script opener behind fuel
      return (block :: blocks, stop, rest) := by
  rw [parseHashtable]
  simp only [h]

theorem parseHashtable_nested (h : t.kind = .opening .atBrace) :
    parseHashtable script opener (t :: ts) (fuel + 1) = do
      let (inner, _, behind) ← parseHashtable script t ts fuel
      let (blocks, stop, rest) ← parseHashtable script opener behind fuel
      return (inner ++ blocks, stop, rest) := by
  rw [parseHashtable]
  simp only [h]

theorem parseHashtable_token (hclose : t.kind ≠ .closing .brace) (hbrace : ¬ OpensBrace t.kind) :
    parseHashtable script opener (t :: ts) (fuel + 1) = parseHashtable script opener ts fuel := by
  rw [parseHashtable]
  split
  · exact absurd ‹_› hclose
  · exact absurd (.inl ‹_›) hbrace
  · exact absurd (.inr ‹_›) hbrace
  · rfl

end HelpAudit
