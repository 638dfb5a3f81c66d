import Mathlib.Data.List.DropRight
import HelpAudit.Proofs.OneFunction
import HelpAudit.Proofs.StatementExcerpts

/-! The script that is evaluated for a `dynamicparam` block is faithful to the block: it parses, and
    the one script block in it has the statements of the block, unless a script block in a statement
    comes upon parameters there that it does not have. The text around the statements is fixed, and of
    the three statements in it the second holds the block. -/

namespace HelpAudit

/-! ### The fragment -/

namespace Chunk

/-- The statements in the block; without any there is still an empty line. -/
def fragmentBody : List (List Chunk) → List Chunk
  | [] => [feed]
  | part :: parts => lined (part :: parts)

/-- The whole fragment. -/
def fragment (parts : List (List Chunk)) : List Chunk :=
  fragmentHead ++ [openBrace, feed] ++ (fragmentBody parts ++ closeBrace :: fragmentTail)

theorem toList_fragmentHead :
    "$ErrorActionPreference = 'Stop'\n$__dynamicParameters = @(. \x7b\n".toList =
      joined (fragmentHead ++ [openBrace, feed]) := by
  simp [joined, fragmentHead, openBrace, mark, feed]

theorem toList_fragmentTail : "\n\x7d)\n$__dynamicParameters[0].Keys | Write-Output\n".toList =
    ['\n'] ++ joined (closeBrace :: fragmentTail) := by
  simp [joined, fragmentTail, closeBrace, mark, feed]

theorem allFit_fragmentHead (rest : List Char) :
    AllFit (fragmentHead ++ [openBrace, feed]) rest := by
  have hhead : AllFit (fragmentHead ++ [openBrace]) [] :=
    ⟨rfl, rfl, rfl, rfl, rfl, rfl, rfl, rfl, rfl, rfl, rfl, rfl, rfl, rfl, trivial⟩
  have hfeed : AllFit (fragmentHead ++ [openBrace]) ('\n' :: rest) := allFit_feed hhead (by decide) rest
  have hall : AllFit (fragmentHead ++ [openBrace] ++ [feed]) rest :=
    allFit_append.mpr ⟨hfeed, feed_fits rest, trivial⟩
  exact hall

theorem allFit_fragmentTail : AllFit (closeBrace :: fragmentTail) [] :=
  ⟨rfl, rfl, rfl, rfl, rfl, rfl, rfl, rfl, rfl, rfl, rfl, rfl, rfl, trivial⟩

end Chunk

namespace Excerpts

variable {script : Script} {statements : List Statement} {parts : List (List Chunk)}

/-- The chunks of the statements, each with a line feed, are their texts on lines of their own. -/
theorem joined_fragmentBody (h : Excerpts script statements parts) :
    Chunk.joined (Chunk.fragmentBody parts) =
      ("\n".intercalate (statements.map (·.extent.text))).toList ++ ['\n'] := by
  induction h with
  | nil => rfl
  | @cons statement statements part parts hpart hparts ih =>
    rw [Chunk.fragmentBody, Chunk.lined_cons, Chunk.joined_append, Chunk.joined_cons, hpart.text]
    cases hparts with
    | nil =>
      rw [List.map_cons, List.map_nil, String.intercalate_singleton]
      rfl
    | cons hnext hothers =>
      rw [Chunk.fragmentBody] at ih
      rw [ih, List.map_cons, List.map_cons, List.map_cons, String.intercalate_cons_cons,
        String.toList_append, String.toList_append, List.append_assoc, List.append_assoc]
      rfl

theorem joined_fragment (h : Excerpts script statements parts) :
    Chunk.joined (Chunk.fragment parts) =
      (dynamicScript (statements.map (·.extent.text))).toList := by
  rw [Chunk.fragment, Chunk.joined_append, Chunk.joined_append (Chunk.fragmentBody parts),
    h.joined_fragmentBody]
  unfold dynamicScript
  simp only [String.toList_append, Chunk.toList_fragmentHead, Chunk.toList_fragmentTail,
    List.append_assoc]

/-- The fragment is cut into its chunks: no token runs from a statement into the text around it. -/
theorem allFit_fragment (h : Excerpts script statements parts) :
    Chunk.AllFit (Chunk.fragment parts) [] := by
  have hbody : ∀ rest, Chunk.AllFit (Chunk.fragmentBody parts) rest := by
    intro rest
    cases h with
    | nil => exact ⟨Chunk.feed_fits rest, trivial⟩
    | cons hpart hparts => exact (Excerpts.cons hpart hparts).allFit rest
  exact Chunk.allFit_append.mpr ⟨Chunk.allFit_fragmentHead _,
    Chunk.allFit_append.mpr ⟨hbody _, Chunk.allFit_fragmentTail⟩⟩

end Excerpts

/-! ### Reading the fragment -/

/-- Tokens that are part of a statement, whatever has been read of it. -/
def TokenKind.isPlain : TokenKind → Bool
  | .opening .brace | .opening .atBrace | .closing .brace | .newline | .semicolon | .comment _ => false
  | _ => true

/-- Neither a parameter block nor a named block starts with such a token. -/
def TokenKind.startsBody : TokenKind → Bool
  | .opening .bracket | .keyword .param | .keyword (.block _) => false
  | _ => true

theorem TokenKind.of_isPlain {kind : TokenKind} (h : kind.isPlain = true) : kind.isTrivia = false ∧
    ¬ OpensBrace kind ∧ ∀ depth afterPipe, ¬ EndsPipeline depth afterPipe kind := by
  refine ⟨?_, ?_, ?_⟩
  · cases kind <;> simp [isPlain, isTrivia, isComment] at *
  · rintro (rfl | rfl) <;> cases h
  · rintro depth afterPipe (rfl | ⟨rfl, -⟩ | ⟨rfl, -⟩) <;> cases h

section Reading

variable {script : Script}

section Plain

variable {depth : Nat} {afterPipe : Bool} {stop : Nat} {t : Token} {kind : TokenKind} {ts : List Token}
  {blocks : List ScriptBlock} {last : Nat} {rest : List Token} (hkind : t.kind = kind)
  (hplain : kind.isPlain = true)

include hkind hplain

theorem ReadsPipeline.plain
    (h : ReadsPipeline script (depthAfter kind depth) (kind = .pipe) t.stop ts blocks last rest) :
    ReadsPipeline script depth afterPipe stop (t :: ts) blocks last rest := by
  subst hkind
  obtain ⟨hcode, hbrace, hends⟩ := TokenKind.of_isPlain hplain
  exact .token hcode hbrace (hends _ _) h

theorem ReadsPipeline.of_plain
    (h : ReadsPipeline script depth afterPipe stop (t :: ts) blocks last rest) :
    ReadsPipeline script (depthAfter kind depth) (kind = .pipe) t.stop ts blocks last rest := by
  subst hkind
  obtain ⟨hcode, hbrace, hends⟩ := TokenKind.of_isPlain hplain
  exact h.of_token hcode hbrace (hends _ _)

end Plain

/-- Statements that open no block are a body without a parameter block and without named blocks. -/
theorem ReadsStatements.body {closing : Bool} {front ts rest : List Token} {t : Token}
    {statements : List Statement}
    (h : ReadsStatements script closing (front ++ t :: ts) statements rest)
    (hfront : ∀ u ∈ front, u.kind.isTrivia = true) (hcode : t.kind.isSeparator = false)
    (hstarts : t.kind.startsBody = true) :
    paramBlock script (front ++ t :: ts) = .ok (none, front ++ t :: ts) ∧
      ∃ extent, ReadsBody script closing (skipSeparators (front ++ t :: ts))
        [⟨.endBlock, true, extent, statements⟩] rest := by
  have hbracket : t.kind ≠ .opening .bracket := fun heq => by rw [heq] at hstarts; cases hstarts
  have hparam : t.kind ≠ .keyword .param := fun heq => by rw [heq] at hstarts; cases hstarts
  have hskip := (skipSeparators_append hfront (t :: ts)).trans (skipSeparators_cons_of_code ts hcode)
  refine ⟨paramBlock_of_code script hfront ts (isTrivia_of_code hcode) hbracket hparam,
    bodyExtent script (t :: ts) statements, ?_⟩
  rw [hskip]
  refine .unnamed ?_ (h.of_skip ((skipSeparators_cons_of_code ts hcode).trans hskip.symm))
  cases hkind : t.kind with
  | keyword word =>
    cases word with
    | block kind => rw [hkind] at hstarts; cases hstarts
    | declare kind => simp [namedBlockKind?, hkind]
    | param => simp [namedBlockKind?, hkind]
  | _ => simp [namedBlockKind?, hkind]

theorem ReadsStatements.pipeline_of_var {closing : Bool} {ts after behind rest : List Token} {v : Token}
    {blocks : List ScriptBlock} {stop : Nat} {statements : List Statement}
    (hskip : skipSeparators ts = v :: after) (hv : v.kind = .var)
    (h : ReadsPipeline script 0 false 0 (v :: after) blocks stop behind)
    (hothers : ReadsStatements script closing behind statements rest) :
    ReadsStatements script closing ts
      (.pipeline ⟨script.extent v.start stop, blocks⟩ :: statements) rest :=
  .pipeline hskip (by simp [hv]) (by simp [hv]) h hothers

/-- A variable is set to a string: `$v = 's'`. -/
theorem readsPipeline_setting {v e s n : Token} {rest : List Token}
    (h : [v.kind, e.kind, s.kind, n.kind] = [.var, .equals, .string .single, .newline]) :
    ReadsPipeline script 0 false 0 (v :: e :: s :: n :: rest) [] s.stop (n :: rest) := by
  simp only [List.cons.injEq, and_true] at h
  obtain ⟨hv, he, hs, hn⟩ := h
  exact .plain hv rfl (.plain he rfl (.plain hs rfl (.ended (.inr (.inl ⟨hn, rfl, rfl⟩)))))

/-- A variable is set to what a script block gives: `$v = @(. {...})`. -/
theorem ReadsBlock.readsPipeline_call {v e p w o c n : Token} {ts rest : List Token}
    {inner : ScriptBlock} (hinner : ReadsBlock script (some o) ts inner (c :: n :: rest))
    (h : [v.kind, e.kind, p.kind, w.kind, o.kind, c.kind, n.kind] = [.var, .equals,
      .opening .atParen, .word, .opening .brace, .closing .paren, .newline]) :
    ReadsPipeline script 0 false 0 (v :: e :: p :: w :: o :: ts) [inner] c.stop (n :: rest) := by
  simp only [List.cons.injEq, and_true] at h
  obtain ⟨hv, he, hp, hw, ho, hc, hn⟩ := h
  exact .plain hv rfl (.plain he rfl (.plain hp rfl (.plain hw rfl
    (.block ho hinner (.plain hc rfl (.ended (.inr (.inl ⟨hn, rfl, rfl⟩))))))))

/-- A part of a variable is sent on: `$v[0].k | w`. -/
theorem readsPipeline_keys {v l z r k i w n : Token} {rest : List Token}
    (h : [v.kind, l.kind, z.kind, r.kind, k.kind, i.kind, w.kind, n.kind] = [.var, .opening .bracket,
      .word, .closing .bracket, .word, .pipe, .word, .newline]) :
    ReadsPipeline script 0 false 0 (v :: l :: z :: r :: k :: i :: w :: n :: rest) [] w.stop
      (n :: rest) := by
  simp only [List.cons.injEq, and_true] at h
  obtain ⟨hv, hl, hz, hr, hk, hi, hw, hn⟩ := h
  exact .plain hv rfl (.plain hl rfl (.plain hz rfl (.plain hr rfl (.plain hk rfl (.plain hi rfl
    (.plain hw rfl (.ended (.inr (.inl ⟨hn, rfl, rfl⟩)))))))))

/-- Around the block of the statements, the fragment has three statements. -/
theorem ReadsBlock.readsStatements_fragment {opener : Token} {ts : List Token} {inner : ScriptBlock}
    {stop : Nat} (hopener : opener.kind = .opening .brace)
    (h : ReadsBlock script (some opener) ts inner (Chunk.tokens stop Chunk.fragmentTail))
    (start : Nat) :
    ∃ first second third,
      ReadsStatements script false (Chunk.tokens start Chunk.fragmentHead ++ opener :: ts)
        [.pipeline first, .pipeline second, .pipeline third] [] ∧ second.scriptBlocks = [inner] := by
  refine ⟨_, _, _, .pipeline_of_var rfl rfl (readsPipeline_setting rfl) (.pipeline_of_var rfl rfl
    (h.readsPipeline_call ?_) (.pipeline_of_var rfl rfl (readsPipeline_keys rfl) (.finish rfl))), rfl⟩
  rw [hopener]
  rfl

theorem ReadsStatements.of_pipeline_cons {closing : Bool} {ts after rest : List Token} {t : Token}
    {pipeline : Pipeline} {statements : List Statement}
    (h : ReadsStatements script closing ts (.pipeline pipeline :: statements) rest)
    (hskip : skipSeparators ts = t :: after) : ∃ stop behind,
      ReadsPipeline script 0 false 0 (t :: after) pipeline.scriptBlocks stop behind ∧
      ReadsStatements script closing behind statements rest := by
  cases h with
  | pipeline hfirst _ _ hpipeline hothers =>
    rw [hskip] at hfirst
    cases hfirst
    exact ⟨_, _, hpipeline, hothers⟩

/-- The second of the three statements is read by reading its script block. -/
theorem ReadsStatements.of_fragment {closing : Bool} {opener : Token} {ts rest : List Token}
    {start : Nat} {first second : Pipeline} {others : List Statement} {inner : ScriptBlock}
    (h : ReadsStatements script closing (Chunk.tokens start Chunk.fragmentHead ++ opener :: ts)
      (.pipeline first :: .pipeline second :: others) rest)
    (hopener : opener.kind = .opening .brace) (hsecond : second.scriptBlocks = [inner]) :
    ∃ behind, ReadsBlock script (some opener) ts inner behind := by
  obtain ⟨_, _, hset, h⟩ := h.of_pipeline_cons rfl
  obtain rfl := (((hset.of_plain rfl rfl).of_plain rfl rfl).of_plain rfl rfl).of_ended
    (.inr (.inl ⟨rfl, rfl, rfl⟩))
  obtain ⟨_, _, hcall, -⟩ := h.of_pipeline_cons rfl
  have hbrace := (((hcall.of_plain rfl rfl).of_plain rfl rfl).of_plain rfl rfl).of_plain rfl rfl
  obtain ⟨block, behind, _, hblocks, hblock, -⟩ := hbrace.of_brace hopener
  rw [hsecond] at hblocks
  cases hblocks
  exact ⟨behind, hblock⟩

end Reading

/-- The script block has no parameter block and no named blocks, and its statements are these. -/
def ScriptBlock.IsBody (block : ScriptBlock) (statements : List Statement) : Prop :=
  block.paramBlock = none ∧ ∃ extent, block.namedBlocks = [⟨.endBlock, true, extent, statements⟩]

/-- The tree has three statements, and the second has one script block, with statements of these
    texts. -/
def ScriptBlock.Wraps (root : ScriptBlock) (texts : List String) : Prop :=
  ∃ first second third inner statements,
    root.IsBody [.pipeline first, .pipeline second, .pipeline third] ∧
    second.scriptBlocks = [inner] ∧ inner.IsBody statements ∧ statements.map (·.extent.text) = texts

/-- An unnamed body that was read has the statements that were read for it. -/
theorem ReadsBlock.statements_of_body {script : Script} {opener : Option Token} {ts rest : List Token}
    {block : ScriptBlock} {statements : List Statement} (h : ReadsBlock script opener ts block rest)
    (hbody : block.IsBody statements) :
    ∃ closing behind, ReadsStatements script closing ts statements behind := by
  obtain ⟨hnone, extent, hblocks⟩ := hbody
  obtain ⟨closing, behind, hread⟩ :
      ∃ closing behind, ReadsBody script closing (skipSeparators ts) block.namedBlocks behind := by
    -- both kinds of blocks have a body, which is unnamed here
    cases h with
    | whole hparams hbody =>
      subst hnone
      obtain rfl := paramBlock_none hparams
      exact ⟨_, _, hbody⟩
    | braced hparams hbody _ =>
      subst hnone
      obtain rfl := paramBlock_none hparams
      exact ⟨_, _, hbody⟩
  rw [hblocks] at hread
  cases hread with
  | named _ hnamed => cases hnamed
  | unnamed _ hstatements =>
    exact ⟨closing, behind, hstatements.of_skip (List.dropWhile_idempotent _ _).symm⟩

/-- The statement starts neither a parameter block nor a named block. -/
def Statement.StartsBody (script : Script) (statement : Statement) : Prop :=
  ∀ t ∈ script.tokens, t.start = statement.extent.startOffset → t.kind.startsBody = true

instance (script : Script) (statement : Statement) : Decidable (statement.StartsBody script) :=
  inferInstanceAs (Decidable (∀ t ∈ script.tokens, _ = _ → _ = true))

theorem Chunk.tokens_fragment (parts : List (List Chunk)) : ∃ opener newline close stop,
    tokens 0 (fragment parts) = tokens 0 fragmentHead ++ opener :: newline ::
      (tokens (Text.byteLength (joined (fragmentHead ++ [openBrace, feed]))) (fragmentBody parts) ++
        close :: tokens stop fragmentTail) ∧
    opener.kind = .opening .brace ∧ newline.kind = .newline ∧ close.kind = .closing .brace ∧
    List.Forall₂ Link.outline.token (tokens 0 (closeBrace :: fragmentTail))
      (close :: tokens stop fragmentTail) := by
  rw [fragment, tokens_append, tokens_append 0 fragmentHead,
    tokens_append _ (fragmentBody parts), Nat.zero_add, Nat.zero_add, List.append_assoc]
  exact ⟨_, _, _, _, rfl, rfl, rfl, rfl, tokens_alike 0 _ _⟩

namespace Excerpts

variable {script : Script} {statements : List Statement} {parts : List (List Chunk)}

/-- Statements that come upon no parameters they do not have are read in the fragment with the same texts. -/
theorem reads_body (h : Excerpts script statements parts) (hkeep : script.KeepsParams statements)
    {script' : Script} (hp : script'.IsPlaced)
    {close : Token} {rest : List Token} (hclose : close.kind = .closing .brace)
    (hclosing : List.Forall₂ Link.outline.token (Chunk.tokens 0 (.closeBrace :: Chunk.fragmentTail))
      (close :: rest)) {before after : List Char}
    (hsource : script'.source = before ++ Chunk.joined (Chunk.fragmentBody parts) ++ after)
    (hts : Chunk.tokens (Text.byteLength before) (Chunk.fragmentBody parts) ++ close :: rest <:+
      script'.tokens) :
    ∃ statements', ReadsStatements script' true
        (Chunk.tokens (Text.byteLength before) (Chunk.fragmentBody parts) ++ close :: rest) statements'
        (close :: rest) ∧
      statements'.map (·.extent.text) = statements.map (·.extent.text) := by
  cases h with
  | nil =>
    have hskip := skipSeparators_cons_of_code rest (t := close) (by rw [hclose]; rfl)
    exact ⟨[], .closed ((skipSeparators_feed rfl _).trans hskip) hclose, rfl⟩
  | cons hpart hparts => exact (Excerpts.cons hpart hparts).reads hclosing hkeep hp hclose before hsource hts

/-- The first token in the block that counts. -/
theorem exists_first (h : Excerpts script statements parts)
    (hfirst : ∀ statement ∈ statements.head?, statement.StartsBody script) {close : Token}
    (hclose : close.kind = .closing .brace) (rest : List Token) (start : Nat) :
    ∃ front t more, Chunk.tokens start (Chunk.fragmentBody parts) ++ close :: rest =
        front ++ t :: more ∧ (∀ u ∈ front, u.kind.isTrivia = true) ∧ t.kind.isSeparator = false ∧
      t.kind.startsBody = true := by
  cases h with
  | nil =>
    refine ⟨[.startingAt start .newline "\n"], close, rest, rfl, by simp; rfl, by rw [hclose]; rfl, ?_⟩
    rw [hclose]
    rfl
  | cons hpart hparts =>
    obtain ⟨kind, text, more, rfl, hcode, t, ht, hstart, rfl⟩ := hpart.head
    refine ⟨[], .startingAt start t.kind (.ofList text), _, rfl, by simp, hcode, ?_⟩
    exact hfirst _ rfl t ht hstart

/-- The fragment has a tree that wraps the statements. -/
theorem reads_fragment (h : Excerpts script statements parts) (hkeep : script.KeepsParams statements)
    (hfirst : ∀ statement ∈ statements.head?, statement.StartsBody script) {script' : Script}
    (hp : script'.IsPlaced) (hsource : script'.source = Chunk.joined (Chunk.fragment parts))
    (htokens : script'.tokens = Chunk.tokens 0 (Chunk.fragment parts)) :
    ∃ root, ReadsBlock script' none script'.tokens root [] ∧
      root.Wraps (statements.map (·.extent.text)) := by
  obtain ⟨opener, newline, close, stop, hsplit, hopener, hnewline, hclose, hclosing⟩ :=
    Chunk.tokens_fragment parts
  rw [hsplit] at htokens
  rw [Chunk.fragment, Chunk.joined_append, Chunk.joined_append (Chunk.fragmentBody parts),
    ← List.append_assoc] at hsource
  -- the block of the statements
  obtain ⟨statements', hstatements, htexts⟩ := h.reads_body hkeep hp hclose hclosing hsource
    (htokens ▸ suffix_of_cons_suffix (suffix_of_cons_suffix (List.suffix_append _ _)))
  obtain ⟨front, t, more, hlist, hfront, hcode, hstarts⟩ :=
    h.exists_first hfirst hclose (Chunk.tokens stop Chunk.fragmentTail) _
  rw [hlist] at hstatements htokens
  have hlines : ReadsStatements script' true (newline :: front ++ t :: more) statements' _ :=
    hstatements.of_skip (skipSeparators_feed hnewline _)
  obtain ⟨hparams, extent, hbody⟩ := hlines.body
    (List.forall_mem_cons.mpr ⟨by rw [hnewline]; rfl, hfront⟩) hcode hstarts
  have hinner : ReadsBlock script' (some opener) _ _ _ := .braced hparams hbody hclose
  -- the statements around it
  obtain ⟨first, second, third, houter, hsecond⟩ :=
    hinner.readsStatements_fragment hopener 0
  have hwhole : ReadsStatements script' false
      ([] ++ .startingAt 0 .var "$ErrorActionPreference" :: _) _ [] := houter
  obtain ⟨hnone, extent', hroot⟩ := hwhole.body (List.forall_mem_nil _) rfl rfl
  rw [htokens]
  exact ⟨_, .whole hnone hroot, first, second, third, _, statements', ⟨rfl, extent', rfl⟩, hsecond,
    ⟨rfl, extent, rfl⟩, htexts⟩

/-- If the fragment is read so, then no script block finds a parameter block that it does not have. -/
theorem keeps_fragment (h : Excerpts script statements parts) {script' : Script} (hp : script'.IsPlaced)
    (hsource : script'.source = Chunk.joined (Chunk.fragment parts))
    (htokens : script'.tokens = Chunk.tokens 0 (Chunk.fragment parts)) {root : ScriptBlock}
    (hread : ReadsBlock script' none script'.tokens root [])
    (hwraps : root.Wraps (statements.map (·.extent.text))) : script.KeepsParams statements := by
  obtain ⟨first, second, third, inner, statements', hroot, hsecond, hinner, htexts⟩ := hwraps
  obtain ⟨opener, newline, close, stop, hsplit, hopener, hnewline, hclose, hclosing⟩ :=
    Chunk.tokens_fragment parts
  rw [hsplit] at htokens
  obtain ⟨closing, behind, houter⟩ := hread.statements_of_body hroot
  rw [htokens] at houter
  obtain ⟨_, hblock⟩ := houter.of_fragment hopener hsecond
  obtain ⟨_, _, hstatements⟩ := hblock.statements_of_body hinner
  cases h with
  | nil => exact trivial
  | cons hpart hparts =>
    rw [Chunk.fragment, Chunk.joined_append, Chunk.joined_append (Chunk.fragmentBody _),
      ← List.append_assoc] at hsource
    exact (Excerpts.cons hpart hparts).keeps hclosing hp _ hsource
      (htokens ▸ suffix_of_cons_suffix (suffix_of_cons_suffix (List.suffix_append _ _)))
      (hstatements.of_skip (skipSeparators_feed hnewline _).symm) htexts

end Excerpts

/-! ### The script of a `dynamicparam` block -/

/-- The script of excerpts parses to what wraps them exactly if they keep their parameters. -/
theorem Excerpts.parse_iff {script : Script} {statements : List Statement} {parts : List (List Chunk)}
    (h : Excerpts script statements parts)
    (hfirst : ∀ statement ∈ statements.head?, statement.StartsBody script) (file : Option String) :
    (∃ root, parse (dynamicScript (statements.map (·.extent.text))) file = .ok root ∧
      root.Wraps (statements.map (·.extent.text))) ↔ script.KeepsParams statements := by
  have htokenize := Chunk.tokenize_joined h.allFit_fragment
  have hp := tokenize_isPlaced file htokenize
  have hsource : withoutMark (dynamicScript (statements.map (·.extent.text))).toList =
      Chunk.joined (Chunk.fragment parts) := by
    rw [← h.joined_fragment]
    rfl
  constructor
  · rintro ⟨root, hroot, hwraps⟩
    obtain ⟨tokens, htokens, hread⟩ := parse_eq_ok hroot
    rw [hsource] at htokens hread
    obtain rfl := Except.ok.inj (htokenize.symm.trans htokens)
    exact h.keeps_fragment hp rfl rfl hread hwraps
  · intro hkeep
    obtain ⟨root, hread, hwraps⟩ := h.reads_fragment hkeep hfirst hp rfl rfl
    exact ⟨root, parse_of_readsBlock hsource htokenize hread, hwraps⟩

/-- The statements of a block that was read are excerpts of the script. -/
theorem NamedBlock.IsRead.exists_excerpts {script : Script} {block : NamedBlock}
    (h : block.IsRead script) (hkind : block.kind = .dynamicParamBlock)
    (htokens : tokenize script.source = .ok script.tokens) (hp : script.IsPlaced)
    (halone : ∀ statement ∈ block.statements, statement.EndsAlone script) :
    ∃ parts, Excerpts script block.statements parts := by
  obtain ⟨chunks, hfit, hsource⟩ := Chunk.exists_of_cut (tokenize_eq_ok htokens).1
  rw [← hsource, Chunk.tokenize_joined hfit] at htokens
  cases h with
  | unnamed => cases hkind
  | named hts _ hopener _ hstatements _ =>
    have hinner := suffix_of_cons_suffix ((hopener ▸ skipTrivia_suffix _).trans
      (suffix_of_cons_suffix hts))
    exact hstatements.exists_excerpts hp hfit hsource.symm (Except.ok.inj htokens).symm hinner halone

/-- The script of a `dynamicparam` block is faithful to the block, unless a script block in it comes
    upon a parameter block there that it does not have. -/
theorem dynamicScript_is_faithful {source : String} {file : Option String} {root : ScriptBlock}
    {tokens : List Token} {block : NamedBlock} (h : parse source file = .ok root)
    (htokens : tokenize (withoutMark source.toList) = .ok tokens)
    (hblock : .namedBlock block ∈ (Node.scriptBlock root).preorder)
    (hkind : block.kind = .dynamicParamBlock)
    (hfirst : ∀ statement ∈ block.statements.head?,
      statement.StartsBody ⟨withoutMark source.toList, file, tokens⟩)
    (halone : ∀ statement ∈ block.statements,
      statement.EndsAlone ⟨withoutMark source.toList, file, tokens⟩)
    (file' : Option String) :
    (∃ root', parse block.dynamicScript file' = .ok root' ∧
      root'.Wraps (block.statements.map (·.extent.text))) ↔
    Script.KeepsParams ⟨withoutMark source.toList, file, tokens⟩ block.statements := by
  obtain ⟨_, htokens', hread⟩ := parse_eq_ok h
  obtain rfl := Except.ok.inj (htokens.symm.trans htokens')
  have hall := hread.allRead (List.suffix_refl _)
  rw [Node.preorder_eq] at hblock
  rcases List.mem_cons.mp hblock with heq | hblock
  · cases heq
  · obtain ⟨child, hchild, hmem⟩ := List.mem_flatMap.mp hblock
    have hread : block.IsRead _ := hall child hchild _ hmem
    obtain ⟨parts, hparts⟩ :=
      hread.exists_excerpts hkind htokens (tokenize_isPlaced file htokens) halone
    exact hparts.parse_iff hfirst file'

/-- A block of a parsed script for which a check succeeds. -/
theorem exists_block_of_any {source : String} {file : Option String}
    {p : Script → NamedBlock → Bool}
    (h : (parse source file).toOption.any (fun root =>
      (tokenize (withoutMark source.toList)).toOption.any fun tokens =>
        ((Node.scriptBlock root).visited true).any fun
          | .namedBlock block => p ⟨withoutMark source.toList, file, tokens⟩ block
          | _ => false) = true) :
    ∃ root tokens block, parse source file = .ok root ∧
      tokenize (withoutMark source.toList) = .ok tokens ∧
      .namedBlock block ∈ (Node.scriptBlock root).preorder ∧
      p ⟨withoutMark source.toList, file, tokens⟩ block = true := by
  obtain ⟨root, hroot, h⟩ := exists_ok_of_any h
  obtain ⟨tokens, htokens, h⟩ := exists_ok_of_any h
  obtain ⟨node, hnode, h⟩ := List.any_eq_true.mp h
  rw [Node.visited_true] at hnode
  split at h
  · exact ⟨root, tokens, _, hroot, htokens, hnode, h⟩
  · cases h

/-- The attributes of the first script block take up the rest of its statement, so that in the
    fragment the look for a parameter block goes on to the next statement. -/
theorem dynamicScript_is_faithful_attributes : ∃ root block root',
    parse ("function F \x7b dynamicparam \x7b $d = \x7b [a \x7d ; foo | bar\n" ++
      "\x7b [b()] param($x) $x \x7d \x7d \x7d") none = .ok root ∧
    .namedBlock block ∈ (Node.scriptBlock root).preorder ∧
    parse block.dynamicScript none = .ok root' ∧
    root'.Wraps ["$d = \x7b [a \x7d", "foo | bar", "\x7b [b()] param($x) $x \x7d"] := by
  obtain ⟨root, tokens, block, hroot, htokens, hblock, h⟩ := exists_block_of_any
    (p := fun script block => decide (block.kind = .dynamicParamBlock ∧
      (∀ statement ∈ block.statements.head?, statement.StartsBody script) ∧
      (∀ statement ∈ block.statements, statement.EndsAlone script) ∧
      script.KeepsParams block.statements ∧ block.statements.map (·.extent.text) =
        ["$d = \x7b [a \x7d", "foo | bar", "\x7b [b()] param($x) $x \x7d"]))
    (show (parse ("function F \x7b dynamicparam \x7b $d = \x7b [a \x7d ; foo | bar\n" ++
      "\x7b [b()] param($x) $x \x7d \x7d \x7d") none).toOption.any _ = true by decide +kernel)
  obtain ⟨hkind, hfirst, halone, hkeep, htexts⟩ := of_decide_eq_true h
  obtain ⟨root', hroot', hwraps⟩ :=
    (dynamicScript_is_faithful hroot htokens hblock hkind hfirst halone none).mpr hkeep
  rw [htexts] at hwraps
  exact ⟨root, block, root', hroot, hblock, hroot', hwraps⟩

/-- The attributes of a script block end with the first statement, and only the semicolon behind it
    keeps the parser from a parameter block. In the fragment it is gone. -/
theorem attributes_reach_next_statement :
    let source := "function F \x7b dynamicparam \x7b \x7b [a \x7d ; param($x) \x7d \x7d"
    ∃ root tokens block, parse source none = .ok root ∧
      tokenize (withoutMark source.toList) = .ok tokens ∧
      .namedBlock block ∈ (Node.scriptBlock root).preorder ∧ block.kind = .dynamicParamBlock ∧
      (∀ statement ∈ block.statements.head?,
        statement.StartsBody ⟨withoutMark source.toList, none, tokens⟩) ∧
      (∀ statement ∈ block.statements, statement.EndsAlone ⟨withoutMark source.toList, none, tokens⟩) ∧
      ∀ root', parse block.dynamicScript none ≠ .ok root' := by
  intro source
  obtain ⟨root, tokens, block, hroot, htokens, hblock, h⟩ := exists_block_of_any
    (p := fun script block => decide (block.kind = .dynamicParamBlock ∧
      (∀ statement ∈ block.statements.head?, statement.StartsBody script) ∧
      (∀ statement ∈ block.statements, statement.EndsAlone script) ∧
      (parse block.dynamicScript none).isOk = false))
    (show (parse source none).toOption.any _ = true by decide +kernel)
  obtain ⟨hkind, hfirst, halone, hfails⟩ := of_decide_eq_true h
  refine ⟨root, tokens, block, hroot, htokens, hblock, hkind, hfirst, halone, fun root' hroot' => ?_⟩
  rw [hroot'] at hfails
  cases hfails

end HelpAudit
