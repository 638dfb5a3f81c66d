import HelpAudit.Proofs.AlignedTokens

/-! Two runs of the parser side by side, over lists of tokens that correspond. If both scripts respect
    a link, the runs fail together or give trees that look the same through its view. The induction is
    on the steps of the second run, which alone reads the comments that only it has. -/

namespace HelpAudit

/-! ### Script blocks -/

/-- Script blocks that look the same. Where a closing brace ends them, the two braces correspond. -/
structure LikeBlock (link : Link) (braced : Bool) (ts ts' : List Token)
    (r r' : ScriptBlock × List Token) : Prop where
  tree : r.1.viewed link.view = r'.1.viewed link.view
  rest : Aligned link true r.2 r'.2
  close : braced = true → ∃ close close', link.token close close' ∧ close :: r.2 <:+ ts ∧
    close' :: r'.2 <:+ ts'

/-- Named blocks that look the same. -/
def LikeNamed (link : Link) (r r' : List NamedBlock × List Token) : Prop :=
  namedBlocksViewed link.view r.1 = namedBlocksViewed link.view r'.1 ∧ Fronts link r.2 r'.2

/-- Statements that look the same. -/
def LikeStatements (link : Link) (r r' : List Statement × List Token) : Prop :=
  statementsViewed link.view r.1 = statementsViewed link.view r'.1 ∧ Fronts link r.2 r'.2

/-- Functions that look the same. -/
def LikeFunction (link : Link) (r r' : FunctionDefinition × List Token) : Prop :=
  r.1.viewed link.view = r'.1.viewed link.view ∧ Aligned link true r.2 r'.2

/-- Script blocks of other statements that look the same, with the offset behind them. -/
structure LikeBlocks (link : Link) (r r' : List ScriptBlock × Nat × List Token) : Prop where
  trees : scriptBlocksViewed link.view r.1 = scriptBlocksViewed link.view r'.1
  stop : link.offset r.2.1 r'.2.1
  rest : Aligned link true r.2.2 r'.2.2

theorem parseBody_suffix {script : Script} {closing : Bool} {ts : List Token} {fuel : Nat}
    {blocks : List NamedBlock} {rest : List Token}
    (h : parseBody script closing ts fuel = .ok (blocks, rest)) : rest <:+ ts := by
  rw [parseBody] at h
  split at h
  · exact ((derivable script fuel).named h).suffix
  · obtain ⟨⟨statements, behind⟩, hstatements, h⟩ := bind_eq_ok.mp h
    cases h
    exact ((derivable script fuel).statements hstatements).suffix

section Steps

variable {link : Link} {script script' : Script} (hj : link.Joins script script')

include hj

/-- The extent of a body without named blocks looks the same in both runs. -/
theorem bodyExtent_agree {ts ts' : List Token} {statements statements' : List Statement}
    (hts : Fronts link ts ts')
    (h : statementsViewed link.view statements = statementsViewed link.view statements') :
    link.view.extent (bodyExtent script ts statements) =
      link.view.extent (bodyExtent script' ts' statements') := by
  have hstart : link.offset ((ts.head?.map Token.start).getD (Text.byteLength script.source))
      ((ts'.head?.map Token.start).getD (Text.byteLength script'.source)) := by
    rcases hts with ⟨rfl, rfl⟩ | ⟨t, t', _, _, rfl, rfl, ht, -⟩
    · exact hj.size
    · exact hj.start ht
  rw [statementsViewed_eq_map, statementsViewed_eq_map] at h
  have hlast := congrArg List.getLast? h
  rw [List.getLast?_map, List.getLast?_map] at hlast
  refine hj.extent hstart (hj.max ?_ hstart)
  cases hs : statements.getLast? <;> cases hs' : statements'.getLast? <;> rw [hs, hs'] at hlast <;>
    simp only [Option.map_none, Option.map_some, reduceCtorEq, Option.some.injEq] at hlast
  · exact hstart
  · rename_i s s'
    have hextent := congrArg Statement.extent hlast
    rw [Statement.viewed_extent, Statement.viewed_extent] at hextent
    exact hj.ends hextent

/-- Script blocks are closed together. -/
theorem closeBlock_agree {opener opener' : Option Token} (ho : Option.Rel link.token opener opener')
    {params params' : Option ParamBlock} {blocks blocks' : List NamedBlock}
    {behind behind' ts ts' : List Token}
    (hparams : params.map (ParamBlock.viewed link.view) = params'.map (ParamBlock.viewed link.view))
    (hblocks : namedBlocksViewed link.view blocks = namedBlocksViewed link.view blocks')
    (hbehind : Fronts link behind behind') (hts : behind <:+ ts) (hts' : behind' <:+ ts') :
    Agree link.error (LikeBlock link opener.isSome ts ts')
      (closeBlock script opener params blocks behind)
      (closeBlock script' opener' params' blocks' behind') := by
  cases ho with
  | none =>
    refine .ok ⟨?_, hbehind.aligned, fun h => absurd h Bool.false_ne_true⟩
    simp only [ScriptBlock.viewed, hparams, hblocks, hj.extent hj.zero hj.size]
  | @some opener opener' ho =>
    rcases hbehind with ⟨rfl, rfl⟩ | ⟨t, t', rest, rest', rfl, rfl, ht, hrest⟩
    · exact hj.fault_agree (fun _ => .missingBrace) (hj.start ho) ho
    · simp only [closeBlock, ← hj.kind ht]
      split
      · refine .ok ⟨?_, hrest.relax, fun _ => ⟨t, t', ht, hts, hts'⟩⟩
        simp only [ScriptBlock.viewed, hparams, hblocks, hj.extent (hj.start ho) (hj.stop ht)]
      · exact hj.fault_agree (fun _ => .missingBrace) (hj.start ho) ho

end Steps

/-! ### Both runs, call by call -/

theorem measure_lt_of_calls (script : Script) {c d : Reading} {m : Nat} (h : Calls script c d)
    (hc : c.measure < m + 1) : d.measure < m :=
  Nat.lt_of_lt_of_le h.progress.2 (Nat.le_of_lt_succ hc)

/-- Corresponding calls agree whenever both have steps enough, the second at most `n`. -/
structure RunsAlike (link : Link) (script script' : Script) (n : Nat) : Prop where
  block : ∀ {m opener opener' ts ts'}, Option.Rel link.token opener opener' →
    Aligned link true ts ts' → (Reading.block opener ts).measure < m →
    (Reading.block opener' ts').measure < n →
    Agree link.error (LikeBlock link opener.isSome ts ts') (parseScriptBlock script opener ts m)
      (parseScriptBlock script' opener' ts' n)
  named : ∀ {m closing ts ts'}, Aligned link true ts ts' → (Reading.named closing ts).measure < m →
    (Reading.named closing ts').measure < n →
    Agree link.error (LikeNamed link) (parseNamedBlocks script closing ts m)
      (parseNamedBlocks script' closing ts' n)
  statements : ∀ {m closing ts ts'}, Aligned link true ts ts' →
    (Reading.statements closing ts).measure < m → (Reading.statements closing ts').measure < n →
    Agree link.error (LikeStatements link) (parseStatements script closing ts m)
      (parseStatements script' closing ts' n)
  function : ∀ {m kind keyword keyword' ts ts'}, link.token keyword keyword' →
    Aligned link false ts ts' → (Reading.function kind keyword ts).measure < m →
    (Reading.function kind keyword' ts').measure < n →
    Agree link.error (LikeFunction link) (parseFunction script kind keyword ts m)
      (parseFunction script' kind keyword' ts' n)
  pipeline : ∀ {m depth afterPipe stop stop' ts ts'}, link.offset stop stop' →
    Aligned link true ts ts' → (Reading.pipeline depth afterPipe stop ts).measure < m →
    (Reading.pipeline depth afterPipe stop' ts').measure < n →
    Agree link.error (LikeBlocks link) (parsePipeline script depth afterPipe stop ts m)
      (parsePipeline script' depth afterPipe stop' ts' n)
  hashtable : ∀ {m opener opener' ts ts'}, link.token opener opener' → Aligned link true ts ts' →
    (Reading.hashtable opener ts).measure < m → (Reading.hashtable opener' ts').measure < n →
    Agree link.error (LikeBlocks link) (parseHashtable script opener ts m)
      (parseHashtable script' opener' ts' n)

namespace RunsAlike

variable {link : Link} {script script' : Script} {n m : Nat} (hj : link.Joins script script')
  (ih : RunsAlike link script script' n)

include hj ih

/-- Both runs take the body for named blocks, or both for statements. -/
theorem body_step {closing : Bool} {ts ts' : List Token} (hts : Fronts link ts ts')
    (hm : 3 * ts.length + 1 < m) (hn : 3 * ts'.length + 1 < n) :
    Agree link.error (LikeNamed link) (parseBody script closing ts m)
      (parseBody script' closing ts' n) := by
  have hkind : namedBlockKind? ts = namedBlockKind? ts' := by
    rcases hts with ⟨rfl, rfl⟩ | ⟨t, t', rest, rest', rfl, rfl, ht, hrest⟩
    · rfl
    · exact namedBlockKind?_agree hj ht hrest
  rw [parseBody, parseBody, ← hkind]
  split
  · exact ih.named hts.aligned hm hn
  · refine (ih.statements hts.aligned hm hn).bind ?_
    rintro ⟨statements, rest⟩ ⟨statements', rest'⟩ - - ⟨hview, hrest⟩
    refine .ok ⟨?_, hrest⟩
    simp only [namedBlocksViewed, NamedBlock.viewed, hview, bodyExtent_agree hj hts hview]

theorem block_step {opener opener' : Option Token} {ts ts' : List Token}
    (ho : Option.Rel link.token opener opener') (hts : Aligned link true ts ts')
    (hm : (Reading.block opener ts).measure < m + 1)
    (hn : (Reading.block opener' ts').measure < n + 1) :
    Agree link.error (LikeBlock link opener.isSome ts ts')
      (parseScriptBlock script opener ts (m + 1)) (parseScriptBlock script' opener' ts' (n + 1)) := by
  have hsome : opener'.isSome = opener.isSome := by cases ho <;> rfl
  rw [parseScriptBlock_succ, parseScriptBlock_succ, hsome]
  refine (paramBlock_agree hj hts).bind ?_
  rintro ⟨params, after⟩ ⟨params', after'⟩ hparams hparams' ⟨hview, hafter⟩
  have hsuffix := (skipSeparators_suffix _).trans (paramBlock_suffix hparams)
  have hsuffix' := (skipSeparators_suffix _).trans (paramBlock_suffix hparams')
  have hm : 3 * (skipSeparators after).length + 1 < m := by
    have := hsuffix.length_le
    simp only [Reading.measure, Reading.tokens, Reading.rank] at hm
    omega
  have hn : 3 * (skipSeparators after').length + 1 < n := by
    have := hsuffix'.length_le
    simp only [Reading.measure, Reading.tokens, Reading.rank] at hn
    omega
  refine (body_step hj ih (hafter.skipSeparators hj) hm hn).bind ?_
  rintro ⟨blocks, behind⟩ ⟨blocks', behind'⟩ hread hread' ⟨hblocks, hbehind⟩
  exact closeBlock_agree hj ho hview hblocks hbehind ((parseBody_suffix hread).trans hsuffix)
    ((parseBody_suffix hread').trans hsuffix')

/-- Both runs find a named block, the end, or the same fault. -/
theorem named_step {closing : Bool} {ts ts' : List Token} (hts : Aligned link true ts ts')
    (hm : (Reading.named closing ts).measure < m + 1)
    (hn : (Reading.named closing ts').measure < n + 1) :
    Agree link.error (LikeNamed link) (parseNamedBlocks script closing ts (m + 1))
      (parseNamedBlocks script' closing ts' (n + 1)) := by
  rcases hts.skipSeparators hj with ⟨hs, hs'⟩ | ⟨t, t', after, after', hs, hs', ht, hafter⟩
  · rw [parseNamedBlocks_nil closing hs, parseNamedBlocks_nil closing hs']
    exact .ok ⟨rfl, .inl ⟨rfl, rfl⟩⟩
  have hkinds := hj.kind ht
  by_cases hclose : closing = true ∧ t.kind = .closing .brace
  · obtain ⟨rfl, hclose⟩ := hclose
    rw [parseNamedBlocks_closed hs hclose, parseNamedBlocks_closed hs' (hkinds ▸ hclose)]
    exact .ok ⟨rfl, .inr ⟨t, t', after, after', rfl, rfl, ht, hafter⟩⟩
  have hclose' : ¬ (closing = true ∧ t'.kind = .closing .brace) := hkinds ▸ hclose
  have hnamed := namedBlockKind?_agree hj ht hafter
  cases hkind : namedBlockKind? (t :: after) with
  | none =>
    rw [parseNamedBlocks_unexpected hs hclose hkind,
      parseNamedBlocks_unexpected hs' hclose' (hnamed ▸ hkind)]
    exact hj.fault_agree .unexpectedInNamedBlocks (hj.start ht) ht
  | some kind =>
    have hkind' : namedBlockKind? (t' :: after') = some kind := hnamed ▸ hkind
    rcases hafter.skipTrivia hj with ⟨hnil, -⟩ | ⟨opener, opener', inner, inner', ho, ho', hopener, hinner⟩
    · -- a keyword is taken for a named block only in front of its brace
      obtain ⟨_, _, hopener, -⟩ := opener_of_namedBlockKind? hkind
      rw [hnil] at hopener
      cases hopener
    rw [parseNamedBlocks_block hs hclose hkind ho, parseNamedBlocks_block hs' hclose' hkind' ho']
    refine (ih.statements hinner.relax (measure_lt_of_calls script (.namedStatements hs hkind ho) hm)
      (measure_lt_of_calls script' (.namedStatements hs' hkind' ho') hn)).bind ?_
    rintro ⟨statements, behind⟩ ⟨statements', behind'⟩ hread hread' ⟨hview, hbehind⟩
    -- the statements end where the script does or at a closing token, in both runs alike
    rcases hbehind with ⟨rfl, rfl⟩ | ⟨close, close', rest, rest', rfl, rfl, hc, hrest⟩
    · exact hj.fault_agree (fun _ => .missingBrace) (hj.start hopener) hopener
    simp only [parseNamedRest, ← hj.kind hc]
    split
    · rename_i hbrace
      have hreads := (derivable script m).statements hread
      have hreads' := (derivable script' n).statements hread'
      refine (ih.named hrest.relax (measure_lt_of_calls script (.nextNamed hs hkind ho hreads hbrace) hm)
        (measure_lt_of_calls script' (.nextNamed hs' hkind' ho' hreads' (hj.kind hc ▸ hbrace)) hn)).bind ?_
      rintro ⟨blocks, rest⟩ ⟨blocks', rest'⟩ - - ⟨hblocks, hrest⟩
      refine .ok ⟨?_, hrest⟩
      simp only [namedBlocksViewed, NamedBlock.viewed, hview, hblocks,
        hj.extent (hj.start ht) (hj.stop hc)]
    · exact hj.fault_agree (fun _ => .missingBrace) (hj.start hopener) hopener

/-- Both runs find a function, another statement, the end, or the same fault. -/
theorem statements_step {closing : Bool} {ts ts' : List Token} (hts : Aligned link true ts ts')
    (hm : (Reading.statements closing ts).measure < m + 1)
    (hn : (Reading.statements closing ts').measure < n + 1) :
    Agree link.error (LikeStatements link) (parseStatements script closing ts (m + 1))
      (parseStatements script' closing ts' (n + 1)) := by
  rcases hts.skipSeparators hj with ⟨hs, hs'⟩ | ⟨t, t', after, after', hs, hs', ht, hafter⟩
  · rw [parseStatements_nil closing hs, parseStatements_nil closing hs']
    exact .ok ⟨rfl, .inl ⟨rfl, rfl⟩⟩
  have hkinds := hj.kind ht
  by_cases hclose : t.kind = .closing .brace
  · rw [parseStatements_closing hs hclose, parseStatements_closing hs' (hkinds ▸ hclose)]
    split
    · exact .ok ⟨rfl, .inr ⟨t, t', after, after', rfl, rfl, ht, hafter⟩⟩
    · exact hj.fault_agree (fun _ => .unexpected Closer.brace.text) (hj.start ht) ht
  by_cases hdeclare : ∃ kind, t.kind = .keyword (.declare kind)
  · obtain ⟨kind, hkind⟩ := hdeclare
    have hkind' : t'.kind = .keyword (.declare kind) := hkinds ▸ hkind
    rw [parseStatements_function hs hkind, parseStatements_function hs' hkind']
    -- behind the keyword no comment may be added, since the name has to follow right there
    have hafter : Aligned link false after after' := by
      rw [hkind] at hafter
      exact hafter
    refine (ih.function ht hafter (measure_lt_of_calls script (.function hs hkind) hm)
      (measure_lt_of_calls script' (.function hs' hkind') hn)).bind ?_
    rintro ⟨definition, behind⟩ ⟨definition', behind'⟩ hread hread' ⟨hview, hbehind⟩
    have hreads := (derivable script m).function hread
    have hreads' := (derivable script' n).function hread'
    refine (ih.statements hbehind (measure_lt_of_calls script (.afterFunction hs hkind hreads) hm)
      (measure_lt_of_calls script' (.afterFunction hs' hkind' hreads') hn)).bind ?_
    rintro ⟨others, rest⟩ ⟨others', rest'⟩ - - ⟨hothers, hrest⟩
    refine .ok ⟨?_, hrest⟩
    simp only [statementsViewed, Statement.viewed, hview, hothers]
  · have hdeclare := not_exists.mp hdeclare
    have hclose' : t'.kind ≠ .closing .brace := hkinds ▸ hclose
    have hdeclare' : ∀ kind, t'.kind ≠ .keyword (.declare kind) := hkinds ▸ hdeclare
    rw [parseStatements_pipeline hs hclose hdeclare, parseStatements_pipeline hs' hclose' hdeclare']
    refine (ih.pipeline hj.zero (.cons ht hafter) (measure_lt_of_calls script (.pipeline hs hclose hdeclare) hm)
      (measure_lt_of_calls script' (.pipeline hs' hclose' hdeclare') hn)).bind ?_
    rintro ⟨blocks, stop, behind⟩ ⟨blocks', stop', behind'⟩ hread hread' hlike
    have hreads := (derivable script m).pipeline hread
    have hreads' := (derivable script' n).pipeline hread'
    refine (ih.statements hlike.rest (measure_lt_of_calls script (.afterPipeline hs hclose hdeclare hreads) hm)
      (measure_lt_of_calls script' (.afterPipeline hs' hclose' hdeclare' hreads') hn)).bind ?_
    rintro ⟨others, rest⟩ ⟨others', rest'⟩ - - ⟨hothers, hrest⟩
    refine .ok ⟨?_, hrest⟩
    simp only [statementsViewed, Statement.viewed, hothers, hlike.trees,
      hj.extent (hj.start ht) hlike.stop]

/-- Both runs read a function, or miss its name or its body together. -/
theorem function_step {kind : FunctionKind} {keyword keyword' : Token} {ts ts' : List Token}
    (hk : link.token keyword keyword') (hts : Aligned link false ts ts')
    (hm : (Reading.function kind keyword ts).measure < m + 1)
    (hn : (Reading.function kind keyword' ts').measure < n + 1) :
    Agree link.error (LikeFunction link) (parseFunction script kind keyword ts (m + 1))
      (parseFunction script' kind keyword' ts' (n + 1)) := by
  cases hts with
  | nil =>
    rw [parseFunction, parseFunction]
    exact hj.fault_agree (fun _ => .missingFunctionName) (hj.start hk) hk
  | @cons _ name name' ts ts' hname hts =>
    rw [parseFunction_cons, parseFunction_cons, ← hj.kind hname]
    split
    · rename_i hlike
      refine (inlineParameters_agree hj hts).bind ?_
      rintro ⟨parameters, rest⟩ ⟨parameters', rest'⟩ hread hread' ⟨hview, hrest⟩
      have hvalue := hj.value hname (.inl hlike)
      rcases hrest with ⟨rfl, rfl⟩ | ⟨opener, opener', inner, inner', rfl, rfl, ho, hinner⟩
      · exact hj.fault_agree .missingFunctionBody (hj.start hk) hname
      simp only [parseFunctionBody, ← hj.kind ho]
      split
      · rename_i hbrace
        refine (ih.block (.some ho) hinner.relax (measure_lt_of_calls script (.body hlike hread hbrace) hm)
          (measure_lt_of_calls script' (.body (hj.kind hname ▸ hlike) hread' (hj.kind ho ▸ hbrace)) hn)).bind ?_
        rintro ⟨body, rest⟩ ⟨body', rest'⟩ - - hbody
        refine .ok ⟨?_, hbody.rest⟩
        -- the extents are compared through the closing braces, which correspond; the used tokens need not
        obtain ⟨close, close', hc, ⟨used, hused⟩, ⟨used', hused'⟩⟩ := hbody.close rfl
        subst hused hused'
        have hextent := functionOf_extent script kind keyword name (name :: ts) parameters opener used
          close body rest
        have hextent' := functionOf_extent script' kind keyword' name' (name' :: ts') parameters'
          opener' used' close' body' rest'
        simp only [functionOf] at hextent hextent'
        simp only [functionOf, FunctionDefinition.viewed, hvalue, hview, hbody.tree, hextent, hextent',
          hj.extent (hj.start hk) (hj.stop hc)]
      · exact hj.fault_agree .missingFunctionBody (hj.start hk) hname
    · exact hj.fault_agree (fun _ => .missingFunctionName) (hj.start hk) hk

/-- Both runs read the same token of a pipeline, or the second one a comment that only it has. -/
theorem pipeline_step {depth : Nat} {afterPipe : Bool} {stop stop' : Nat} {ts ts' : List Token}
    (hstop : link.offset stop stop') (hts : Aligned link true ts ts')
    (hm : (Reading.pipeline depth afterPipe stop ts).measure < m + 1)
    (hn : (Reading.pipeline depth afterPipe stop' ts').measure < n + 1) :
    Agree link.error (LikeBlocks link) (parsePipeline script depth afterPipe stop ts (m + 1))
      (parsePipeline script' depth afterPipe stop' ts' (n + 1)) := by
  cases hts with
  | nil =>
    rw [parsePipeline, parsePipeline]
    exact .ok ⟨rfl, hstop, .nil⟩
  | @comment c ts ts' hc hts =>
    -- the second run alone takes a step
    have htrivia : c.kind.isTrivia = true := by rw [hc]; rfl
    have hgoes : ¬ EndsPipeline depth afterPipe c.kind := by simp [EndsPipeline, hc]
    rw [parsePipeline_trivia htrivia hgoes]
    exact ih.pipeline hstop hts hm (measure_lt_of_calls script' (.pipelineTrivia htrivia hgoes) hn)
  | @cons _ t t' ts ts' ht hts =>
    have hkinds := hj.kind ht
    rcases pipeline_cases depth afterPipe t.kind with hends | hkind | hkind | ⟨htrivia, hgoes⟩ |
      ⟨htrivia, hbrace, hgoes⟩
    · rw [parsePipeline_ended hends, parsePipeline_ended (hkinds ▸ hends)]
      exact .ok ⟨rfl, hstop, .cons ht hts⟩
    · have hkind' : t'.kind = .opening .brace := hkinds ▸ hkind
      rw [parsePipeline_brace hkind, parsePipeline_brace hkind']
      refine (ih.block (.some ht) hts.relax (measure_lt_of_calls script (.pipelineBlock hkind) hm)
        (measure_lt_of_calls script' (.pipelineBlock hkind') hn)).bind ?_
      rintro ⟨block, behind⟩ ⟨block', behind'⟩ hread hread' hblock
      have hreads := (derivable script m).block hread
      have hreads' := (derivable script' n).block hread'
      have hextent := congrArg ScriptBlock.extent hblock.tree
      rw [ScriptBlock.viewed_extent, ScriptBlock.viewed_extent] at hextent
      refine (ih.pipeline (hj.ends hextent) hblock.rest
        (measure_lt_of_calls script (.pipelineAfterBlock hkind hreads) hm)
        (measure_lt_of_calls script' (.pipelineAfterBlock hkind' hreads') hn)).bind ?_
      rintro ⟨blocks, last, rest⟩ ⟨blocks', last', rest'⟩ - - hlike
      refine .ok ⟨?_, hlike.stop, hlike.rest⟩
      simp only [scriptBlocksViewed, hblock.tree, hlike.trees]
    · have hkind' : t'.kind = .opening .atBrace := hkinds ▸ hkind
      rw [parsePipeline_atBrace hkind, parsePipeline_atBrace hkind']
      refine (ih.hashtable ht hts.relax (measure_lt_of_calls script (.pipelineHashtable hkind) hm)
        (measure_lt_of_calls script' (.pipelineHashtable hkind') hn)).bind ?_
      rintro ⟨inner, close, behind⟩ ⟨inner', close', behind'⟩ hread hread' hinner
      have hreads := (derivable script m).hashtable hread
      have hreads' := (derivable script' n).hashtable hread'
      refine (ih.pipeline hinner.stop hinner.rest
        (measure_lt_of_calls script (.pipelineAfterHashtable hkind hreads) hm)
        (measure_lt_of_calls script' (.pipelineAfterHashtable hkind' hreads') hn)).bind ?_
      rintro ⟨blocks, last, rest⟩ ⟨blocks', last', rest'⟩ - - hlike
      refine .ok ⟨?_, hlike.stop, hlike.rest⟩
      simp only [scriptBlocksViewed_append, hinner.trees, hlike.trees]
    · have htrivia' : t'.kind.isTrivia = true := hkinds ▸ htrivia
      have hgoes' : ¬ EndsPipeline depth afterPipe t'.kind := hkinds ▸ hgoes
      rw [parsePipeline_trivia htrivia hgoes, parsePipeline_trivia htrivia' hgoes']
      exact ih.pipeline hstop hts.relax (measure_lt_of_calls script (.pipelineTrivia htrivia hgoes) hm)
        (measure_lt_of_calls script' (.pipelineTrivia htrivia' hgoes') hn)
    · have htrivia' : t'.kind.isTrivia = false := hkinds ▸ htrivia
      have hbrace' : ¬ OpensBrace t'.kind := hkinds ▸ hbrace
      have hgoes' : ¬ EndsPipeline depth afterPipe t'.kind := hkinds ▸ hgoes
      rw [parsePipeline_token htrivia hbrace hgoes, parsePipeline_token htrivia' hbrace' hgoes',
        ← hkinds]
      have hless := measure_lt_of_calls script' (.pipelineToken htrivia' hbrace' hgoes') hn
      exact ih.pipeline (hj.stop ht) hts.relax
        (measure_lt_of_calls script (.pipelineToken htrivia hbrace hgoes) hm) hless

/-- Both runs read the same token of a table, or the second one a comment that only it has. -/
theorem hashtable_step {opener opener' : Token} {ts ts' : List Token}
    (ho : link.token opener opener') (hts : Aligned link true ts ts')
    (hm : (Reading.hashtable opener ts).measure < m + 1)
    (hn : (Reading.hashtable opener' ts').measure < n + 1) :
    Agree link.error (LikeBlocks link) (parseHashtable script opener ts (m + 1))
      (parseHashtable script' opener' ts' (n + 1)) := by
  cases hts with
  | nil =>
    rw [parseHashtable_nil, parseHashtable_nil]
    exact hj.fault_agree (fun _ => .missingBrace) (hj.start ho) ho
  | @comment c ts ts' hc hts =>
    -- a comment of the second run only: it takes one step there and none in the first run
    have hclose : c.kind ≠ .closing .brace := by simp [hc]
    have hbrace : ¬ OpensBrace c.kind := by simp [OpensBrace, hc]
    rw [parseHashtable_token hclose hbrace]
    exact ih.hashtable ho hts hm (measure_lt_of_calls script' (.hashtableToken hclose hbrace) hn)
  | @cons _ t t' ts ts' ht hts =>
    have hkinds := hj.kind ht
    by_cases hclose : t.kind = .closing .brace
    · rw [parseHashtable_closed hclose, parseHashtable_closed (hkinds ▸ hclose)]
      exact .ok ⟨rfl, hj.stop ht, hts.relax⟩
    have hclose' : t'.kind ≠ .closing .brace := hkinds ▸ hclose
    by_cases hkind : t.kind = .opening .brace
    · have hkind' : t'.kind = .opening .brace := hkinds ▸ hkind
      rw [parseHashtable_block hkind, parseHashtable_block hkind']
      refine (ih.block (.some ht) hts.relax (measure_lt_of_calls script (.hashtableBlock hkind) hm)
        (measure_lt_of_calls script' (.hashtableBlock hkind') hn)).bind ?_
      rintro ⟨block, behind⟩ ⟨block', behind'⟩ hread hread' hblock
      have hreads := (derivable script m).block hread
      have hreads' := (derivable script' n).block hread'
      refine (ih.hashtable ho hblock.rest
        (measure_lt_of_calls script (.hashtableAfterBlock hkind hreads) hm)
        (measure_lt_of_calls script' (.hashtableAfterBlock hkind' hreads') hn)).bind ?_
      rintro ⟨blocks, last, rest⟩ ⟨blocks', last', rest'⟩ - - hlike
      refine .ok ⟨?_, hlike.stop, hlike.rest⟩
      simp only [scriptBlocksViewed, hblock.tree, hlike.trees]
    by_cases hat : t.kind = .opening .atBrace
    · have hat' : t'.kind = .opening .atBrace := hkinds ▸ hat
      rw [parseHashtable_nested hat, parseHashtable_nested hat']
      refine (ih.hashtable ht hts.relax (measure_lt_of_calls script (.hashtableNested hat) hm)
        (measure_lt_of_calls script' (.hashtableNested hat') hn)).bind ?_
      rintro ⟨inner, close, behind⟩ ⟨inner', close', behind'⟩ hread hread' hinner
      have hreads := (derivable script m).hashtable hread
      have hreads' := (derivable script' n).hashtable hread'
      refine (ih.hashtable ho hinner.rest
        (measure_lt_of_calls script (.hashtableAfterNested hat hreads) hm)
        (measure_lt_of_calls script' (.hashtableAfterNested hat' hreads') hn)).bind ?_
      rintro ⟨blocks, last, rest⟩ ⟨blocks', last', rest'⟩ - - hlike
      refine .ok ⟨?_, hlike.stop, hlike.rest⟩
      simp only [scriptBlocksViewed_append, hinner.trees, hlike.trees]
    · have hbrace : ¬ OpensBrace t.kind := not_or.mpr ⟨hkind, hat⟩
      have hbrace' : ¬ OpensBrace t'.kind := hkinds ▸ hbrace
      rw [parseHashtable_token hclose hbrace, parseHashtable_token hclose' hbrace']
      exact ih.hashtable ho hts.relax
        (measure_lt_of_calls script (.hashtableToken hclose hbrace) hm)
        (measure_lt_of_calls script' (.hashtableToken hclose' hbrace') hn)

end RunsAlike

theorem exists_succ_of_lt {k m : Nat} (h : k < m) : ∃ m', m = m' + 1 :=
  ⟨m - 1, by omega⟩

/-- Runs side by side agree, however many steps the second one has. -/
theorem runsAlike {link : Link} {script script' : Script} (hj : link.Joins script script') :
    ∀ n, RunsAlike link script script' n
  | 0 => by constructor <;> intros <;> omega
  | n + 1 => by
    have ih := runsAlike hj n
    refine ⟨fun {m} _ _ _ _ ho hts hm hn => ?_, fun {m} _ _ _ hts hm hn => ?_,
      fun {m} _ _ _ hts hm hn => ?_, fun {m} _ _ _ _ _ hk hts hm hn => ?_,
      fun {m} _ _ _ _ _ _ hstop hts hm hn => ?_, fun {m} _ _ _ _ ho hts hm hn => ?_⟩ <;>
      obtain ⟨m, rfl⟩ := exists_succ_of_lt hm
    · exact ih.block_step hj ho hts hm hn
    · exact ih.named_step hj hts hm hn
    · exact ih.statements_step hj hts hm hn
    · exact ih.function_step hj hk hts hm hn
    · exact ih.pipeline_step hj hstop hts hm hn
    · exact ih.hashtable_step hj ho hts hm hn

/-- Scripts that respect a link and have corresponding tokens fail together or have trees that look the
    same. -/
theorem parseTokens_agree {link : Link} {script script' : Script} (hj : link.Joins script script')
    (h : Aligned link true script.tokens script'.tokens) :
    Agree link.error (fun root root' => root.viewed link.view = root'.viewed link.view)
      (parseTokens script) (parseTokens script') := by
  rw [parseTokens_eq_map, parseTokens_eq_map]
  refine ((runsAlike hj (3 * script'.tokens.length + 3)).block .none h ?_ ?_).map
    fun root root' hroot => hroot.tree
  · simp [Reading.measure, Reading.tokens, Reading.rank]
  · simp [Reading.measure, Reading.tokens, Reading.rank]

end HelpAudit
