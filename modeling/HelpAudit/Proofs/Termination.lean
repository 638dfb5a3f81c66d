import Mathlib.Logic.Relation
import HelpAudit.Proofs.ParserSteps

/-! The parser ends on every list of tokens. Its calls are a relation, `Calls`; each call either gets
    fewer tokens than the one that makes it or goes down one of three ranks. So the tokens bound how
    far calls nest, the bound on nested steps is never reached, and answers do not depend on it. A
    whole script that is read leaves no token. -/

namespace HelpAudit

/-! ### Calls -/

/-- A call of one of the functions that call each other. -/
inductive Reading where
  | block (opener : Option Token) (ts : List Token)
  | named (closing : Bool) (ts : List Token)
  | statements (closing : Bool) (ts : List Token)
  | function (kind : FunctionKind) (keyword : Token) (ts : List Token)
  | pipeline (depth : Nat) (afterPipe : Bool) (stop : Nat) (ts : List Token)
  | hashtable (opener : Token) (ts : List Token)

namespace Reading

/-- The tokens still to be read. -/
def tokens : Reading → List Token
  | .block _ ts => ts
  | .named _ ts => ts
  | .statements _ ts => ts
  | .function _ _ ts => ts
  | .pipeline _ _ _ ts => ts
  | .hashtable _ ts => ts

/-- A function of a lower rank may be called on the same tokens. -/
def rank : Reading → Nat
  | .block .. => 2
  | .named .. => 1
  | .statements .. => 1
  | .function .. => 0
  | .pipeline .. => 0
  | .hashtable .. => 0

/-- What every call brings down. -/
def measure (c : Reading) : Nat := 3 * c.tokens.length + c.rank

end Reading

/-- The calls that a call leads to directly. A turn of a loop that goes on is a call of the same
    function with the tokens that are left. -/
inductive Calls (script : Script) : Reading → Reading → Prop where
  | namedBody {opener ts params after} :
    paramBlock script ts = .ok (params, after) →
    (namedBlockKind? (skipSeparators after)).isSome = true →
    Calls script (.block opener ts) (.named opener.isSome (skipSeparators after))
  | unnamedBody {opener ts params after} :
    paramBlock script ts = .ok (params, after) →
    (namedBlockKind? (skipSeparators after)).isSome = false →
    Calls script (.block opener ts) (.statements opener.isSome (skipSeparators after))
  | namedStatements {closing ts t after kind opener inner} :
    skipSeparators ts = t :: after →
    namedBlockKind? (t :: after) = some kind →
    skipTrivia after = opener :: inner →
    Calls script (.named closing ts) (.statements true inner)
  | nextNamed {closing ts t after kind opener inner statements close rest} :
    skipSeparators ts = t :: after →
    namedBlockKind? (t :: after) = some kind →
    skipTrivia after = opener :: inner →
    ReadsStatements script true inner statements (close :: rest) →
    close.kind = .closing .brace →
    Calls script (.named closing ts) (.named closing rest)
  | function {closing ts t after kind} :
    skipSeparators ts = t :: after →
    t.kind = .keyword (.declare kind) →
    Calls script (.statements closing ts) (.function kind t after)
  | afterFunction {closing ts t after kind definition behind} :
    skipSeparators ts = t :: after →
    t.kind = .keyword (.declare kind) →
    ReadsFunction script kind t after definition behind →
    Calls script (.statements closing ts) (.statements closing behind)
  | pipeline {closing ts t after} :
    skipSeparators ts = t :: after →
    t.kind ≠ .closing .brace →
    (∀ kind, t.kind ≠ .keyword (.declare kind)) →
    Calls script (.statements closing ts) (.pipeline 0 false 0 (t :: after))
  | afterPipeline {closing ts t after blocks stop behind} :
    skipSeparators ts = t :: after →
    t.kind ≠ .closing .brace →
    (∀ kind, t.kind ≠ .keyword (.declare kind)) →
    ReadsPipeline script 0 false 0 (t :: after) blocks stop behind →
    Calls script (.statements closing ts) (.statements closing behind)
  | body {kind keyword name ts parameters opener inner} :
    name.kind.isNameLike = true →
    inlineParameters script ts = .ok (parameters, opener :: inner) →
    opener.kind = .opening .brace →
    Calls script (.function kind keyword (name :: ts)) (.block (some opener) inner)
  | pipelineTrivia {depth afterPipe stop t ts} :
    t.kind.isTrivia = true →
    ¬ EndsPipeline depth afterPipe t.kind →
    Calls script (.pipeline depth afterPipe stop (t :: ts)) (.pipeline depth afterPipe stop ts)
  | pipelineBlock {depth afterPipe stop t ts} :
    t.kind = .opening .brace →
    Calls script (.pipeline depth afterPipe stop (t :: ts)) (.block (some t) ts)
  | pipelineAfterBlock {depth afterPipe stop t ts block behind} :
    t.kind = .opening .brace →
    ReadsBlock script (some t) ts block behind →
    Calls script (.pipeline depth afterPipe stop (t :: ts))
      (.pipeline depth false block.extent.endOffset behind)
  | pipelineHashtable {depth afterPipe stop t ts} :
    t.kind = .opening .atBrace →
    Calls script (.pipeline depth afterPipe stop (t :: ts)) (.hashtable t ts)
  | pipelineAfterHashtable {depth afterPipe stop t ts blocks close behind} :
    t.kind = .opening .atBrace →
    ReadsHashtable script ts blocks close behind →
    Calls script (.pipeline depth afterPipe stop (t :: ts)) (.pipeline depth false close behind)
  | pipelineToken {depth afterPipe stop t ts} :
    t.kind.isTrivia = false →
    ¬ OpensBrace t.kind →
    ¬ EndsPipeline depth afterPipe t.kind →
    Calls script (.pipeline depth afterPipe stop (t :: ts))
      (.pipeline (depthAfter t.kind depth) (t.kind = .pipe) t.stop ts)
  | hashtableBlock {opener t ts} :
    t.kind = .opening .brace →
    Calls script (.hashtable opener (t :: ts)) (.block (some t) ts)
  | hashtableAfterBlock {opener t ts block behind} :
    t.kind = .opening .brace →
    ReadsBlock script (some t) ts block behind →
    Calls script (.hashtable opener (t :: ts)) (.hashtable opener behind)
  | hashtableNested {opener t ts} :
    t.kind = .opening .atBrace →
    Calls script (.hashtable opener (t :: ts)) (.hashtable t ts)
  | hashtableAfterNested {opener t ts blocks close behind} :
    t.kind = .opening .atBrace →
    ReadsHashtable script ts blocks close behind →
    Calls script (.hashtable opener (t :: ts)) (.hashtable opener behind)
  | hashtableToken {opener t ts} :
    t.kind ≠ .closing .brace →
    ¬ OpensBrace t.kind →
    Calls script (.hashtable opener (t :: ts)) (.hashtable opener ts)

/-! ### Progress -/

/-- A statement that is not over at its first token reads it. -/
theorem ReadsPipeline.suffix_tail {script : Script} {depth : Nat} {afterPipe : Bool} {stop : Nat}
    {t : Token} {ts : List Token} {blocks : List ScriptBlock} {last : Nat} {rest : List Token}
    (h : ReadsPipeline script depth afterPipe stop (t :: ts) blocks last rest)
    (hgoes : ¬ EndsPipeline depth afterPipe t.kind) : rest <:+ ts := by
  cases h with
  | ended hends => exact absurd hends hgoes
  | trivia _ _ hrest => exact hrest.suffix
  | block _ hblock hrest => exact hrest.suffix.trans hblock.suffix
  | hashtable _ hinner hrest => exact hrest.suffix.trans hinner.suffix
  | token _ _ _ hrest => exact hrest.suffix

section Progress

variable {c d : Reading}

theorem Reading.progress_of_rank (h : d.tokens <:+ c.tokens) (hrank : d.rank < c.rank) :
    d.tokens <:+ c.tokens ∧ d.measure < c.measure := by
  have hlength := h.length_le
  refine ⟨h, ?_⟩
  simp only [Reading.measure]
  omega

theorem Reading.progress_of_tail {t : Token} {ts : List Token} (h : d.tokens <:+ ts)
    (hts : t :: ts <:+ c.tokens) : d.tokens <:+ c.tokens ∧ d.measure < c.measure := by
  have hlength := h.length_le
  have hfewer := hts.length_le
  have hrank : d.rank ≤ 2 := by cases d <;> simp [Reading.rank]
  rw [List.length_cons] at hfewer
  refine ⟨h.trans (suffix_of_cons_suffix hts), ?_⟩
  simp only [Reading.measure]
  omega

/-- Every call gets a last part of the tokens, and fewer of them or a lower rank. -/
theorem Calls.progress {script : Script} (h : Calls script c d) :
    d.tokens <:+ c.tokens ∧ d.measure < c.measure := by
  cases h with
  | namedBody hparams =>
    exact Reading.progress_of_rank ((skipSeparators_suffix _).trans (paramBlock_suffix hparams))
      (by simp [Reading.rank])
  | unnamedBody hparams =>
    exact Reading.progress_of_rank ((skipSeparators_suffix _).trans (paramBlock_suffix hparams))
      (by simp [Reading.rank])
  | namedStatements hskip _ hopener =>
    exact Reading.progress_of_tail (suffix_of_cons_suffix (hopener ▸ skipTrivia_suffix _))
      (suffix_of_skipSeparators hskip)
  | nextNamed hskip _ hopener hstatements =>
    have hinner := suffix_of_cons_suffix (hopener ▸ skipTrivia_suffix _)
    exact Reading.progress_of_tail ((suffix_of_cons_suffix hstatements.suffix).trans hinner)
      (suffix_of_skipSeparators hskip)
  | function hskip =>
    exact Reading.progress_of_tail (List.suffix_refl _) (suffix_of_skipSeparators hskip)
  | afterFunction hskip _ hfunction =>
    exact Reading.progress_of_tail hfunction.suffix (suffix_of_skipSeparators hskip)
  | pipeline hskip =>
    exact Reading.progress_of_rank (suffix_of_skipSeparators hskip) (by simp [Reading.rank])
  | afterPipeline hskip hclose _ hpipeline =>
    -- the statement starts with a token that cannot end it
    have hgoes := not_endsPipeline_of_code hclose (isSeparator_of_skipSeparators hskip) 0 false
    exact Reading.progress_of_tail (hpipeline.suffix_tail hgoes) (suffix_of_skipSeparators hskip)
  | body _ hparameters =>
    exact Reading.progress_of_tail (suffix_of_cons_suffix (inlineParameters_suffix hparameters))
      (List.suffix_refl _)
  | pipelineAfterBlock _ hblock => exact Reading.progress_of_tail hblock.suffix (List.suffix_refl _)
  | pipelineAfterHashtable _ hinner =>
    exact Reading.progress_of_tail hinner.suffix (List.suffix_refl _)
  | hashtableAfterBlock _ hblock => exact Reading.progress_of_tail hblock.suffix (List.suffix_refl _)
  | hashtableAfterNested _ hinner =>
    exact Reading.progress_of_tail hinner.suffix (List.suffix_refl _)
  | _ => exact Reading.progress_of_tail (List.suffix_refl _) (List.suffix_refl _)

/-- What one call brings down, a chain of calls brings down. -/
theorem progress_of_chain {script : Script} (h : Relation.TransGen (Calls script) c d) :
    d.tokens <:+ c.tokens ∧ d.measure < c.measure := by
  induction h with
  | single h => exact h.progress
  | tail _ h ih => exact ⟨h.progress.1.trans ih.1, Nat.lt_trans h.progress.2 ih.2⟩

end Progress

/-! ### What a look ahead finds -/

/-- The keyword of a named block has its brace behind it. -/
theorem opener_of_namedBlockKind? {t : Token} {ts : List Token} {kind : BlockKind}
    (h : namedBlockKind? (t :: ts) = some kind) :
    ∃ opener inner, skipTrivia ts = opener :: inner ∧ opener.kind = .opening .brace := by
  cases hnext : skipTrivia ts with
  | nil =>
    simp only [namedBlockKind?, nextKind?, hnext] at h
    split at h <;> cases h
  | cons opener inner => exact ⟨opener, inner, rfl, (namedBlockKind?_cons h hnext).2⟩

theorem skipTrivia_ne_nil_of_attributeGroups {script : Script} {ts rest : List Token}
    {attributes : List String} {keyword : Token}
    (h : attributeGroups script none ts = .ok (attributes, keyword :: rest)) : skipTrivia ts ≠ [] := by
  intro hnil
  rw [attributeGroups_skipTrivia, hnil] at h
  cases h

theorem lineCommentRun_prefix : ∀ ts : List Token, lineCommentRun ts <+: ts
  | [] => List.prefix_refl _
  | [t] => List.prefix_refl _
  | [t, n] => ⟨[n], rfl⟩
  | t :: n :: u :: ts => by
    rw [lineCommentRun]
    split
    · obtain ⟨rest, hrest⟩ := lineCommentRun_prefix (u :: ts)
      exact ⟨rest, by simp [hrest]⟩
    · exact ⟨n :: u :: ts, rfl⟩

/-- A group of comments starts with the token at which it was found. -/
theorem commentRun?_prefix {ts run : List Token} (h : commentRun? ts = some run) :
    run ≠ [] ∧ run <+: ts := by
  cases ts with
  | nil => cases h
  | cons t ts =>
    simp only [commentRun?] at h
    split at h
    · cases h
      exact ⟨List.cons_ne_nil _ _, ts, rfl⟩
    · cases h
      refine ⟨?_, lineCommentRun_prefix (t :: ts)⟩
      unfold lineCommentRun
      split <;> simp_all
      split <;> simp
    · cases h

/-- What the parser looks at without asking is there. -/
structure LooksWithin (script : Script) : Prop where
  /-- The tokens that a call is given are the last ones of the script. -/
  inside : ∀ {c}, Relation.ReflTransGen (Calls script) (.block none script.tokens) c →
    c.tokens <:+ script.tokens
  /-- The brace of a named block stands behind its keyword. -/
  namedOpener : ∀ {t ts kind}, namedBlockKind? (t :: ts) = some kind →
    ∃ opener inner, skipTrivia ts = opener :: inner ∧ opener.kind = .opening .brace
  /-- A parameter block has a first token. -/
  paramStart : ∀ {ts attributes keyword rest},
    attributeGroups script none ts = .ok (attributes, keyword :: rest) → skipTrivia ts ≠ []
  /-- The token before what a parameter list leaves is its closing parenthesis. -/
  listClose : ∀ {opener segment depth ts list},
    parameterList script opener segment depth ts = .ok list →
    list.close.kind = .closing .paren ∧ ∃ used, ts = used ++ list.close :: list.rest
  /-- The token before what a script block in braces leaves is its closing brace. -/
  blockClose : ∀ {opener ts fuel block rest},
    parseScriptBlock script (some opener) ts fuel = .ok (block, rest) →
    ∃ used close, ts = used ++ close :: rest ∧ close.kind = .closing .brace
  /-- A group of comments has a first and a last token. -/
  comments : ∀ {ts run}, commentRun? ts = some run → run ≠ [] ∧ run <+: ts

theorem looksWithin (script : Script) : LooksWithin script where
  inside h := by
    rcases Relation.reflTransGen_iff_eq_or_transGen.mp h with rfl | h
    · exact List.suffix_refl _
    · exact (progress_of_chain h).1
  namedOpener := opener_of_namedBlockKind?
  paramStart := skipTrivia_ne_nil_of_attributeGroups
  listClose := parameterList_split
  blockClose h := by
    obtain ⟨used, close, hused, hclose, -⟩ := ((derivable script _).block h).split
    exact ⟨used, close, hused, hclose⟩
  comments := commentRun?_prefix

/-! ### Answers -/

/-- Two answers are the same, and neither is the failure of the bound on nested steps. -/
structure Settled {α : Type} (x y : Except ParseError α) : Prop where
  eq : x = y
  cause : ∀ e, x = .error e → e.cause ≠ .exhausted

namespace Settled

variable {α β : Type}

theorem ok (a : α) : Settled (.ok a) (.ok a) := ⟨rfl, fun _ h => by cases h⟩

theorem fault (script : Script) (offset : Nat) {cause : ParseError.Cause} (h : cause ≠ .exhausted) :
    Settled (script.fault offset cause : Except ParseError α) (script.fault offset cause) := by
  refine ⟨rfl, fun e he => ?_⟩
  cases he
  exact h

theorem bind {x y : Except ParseError α} {f g : α → Except ParseError β} (h : Settled x y)
    (hf : ∀ a, x = .ok a → Settled (f a) (g a)) : Settled (x >>= f) (y >>= g) := by
  obtain ⟨rfl, hcause⟩ := h
  cases x with
  | error e => exact ⟨rfl, fun _ he => by cases he; exact hcause e rfl⟩
  | ok a => exact hf a rfl

end Settled

theorem parameterList_settled (script : Script) (opener : Token) : ∀ (ts : List Token)
    (segment : Segment) (depth : Nat), Settled (parameterList script opener segment depth ts)
      (parameterList script opener segment depth ts)
  | [], _, _ => by
    rw [parameterList]
    exact .fault script _ (by decide)
  | t :: ts, segment, depth => by
    rw [parameterList]
    split
    · exact .ok _
    · split
      · exact (parameterList_settled script opener ts _ _).bind fun list _ => .ok _
      · exact parameterList_settled script opener ts _ _

theorem attributeGroups_settled (script : Script) : ∀ (ts : List Token)
    (current : Option (Token × Nat)),
    Settled (attributeGroups script current ts) (attributeGroups script current ts)
  | [], none => by
    rw [attributeGroups]
    exact .ok _
  | [], some (opener, _) => by
    rw [attributeGroups]
    exact .fault script _ (by simp)
  | t :: ts, none => by
    rw [attributeGroups]
    split
    · exact attributeGroups_settled script ts none
    · split
      · exact attributeGroups_settled script ts _
      · exact .ok _
  | t :: ts, some (opener, depth) => by
    rw [attributeGroups]
    split
    · exact attributeGroups_settled script ts _
    · split
      · split
        · exact (attributeGroups_settled script ts none).bind fun _ _ => .ok _
        · exact attributeGroups_settled script ts _
      · exact attributeGroups_settled script ts _

theorem paramBlock_settled (script : Script) (ts : List Token) :
    Settled (paramBlock script ts) (paramBlock script ts) := by
  rw [paramBlock]
  refine (attributeGroups_settled script ts none).bind ?_
  rintro ⟨attributes, rest⟩ -
  simp only
  split
  · split
    · split
      · exact (parameterList_settled script _ _ _ _).bind fun list _ => .ok _
      · exact .ok _
    · exact .ok _
  · exact .ok _

theorem inlineParameters_settled (script : Script) (ts : List Token) :
    Settled (inlineParameters script ts) (inlineParameters script ts) := by
  rw [inlineParameters]
  split
  · split
    · exact (parameterList_settled script _ _ _ _).bind fun list _ => .ok _
    · exact .ok _
  · exact .ok _

theorem closeBlock_settled (script : Script) (opener : Option Token) (params : Option ParamBlock)
    (blocks : List NamedBlock) (behind : List Token) :
    Settled (closeBlock script opener params blocks behind)
      (closeBlock script opener params blocks behind) := by
  unfold closeBlock
  split
  · exact .ok _
  · exact .fault script _ (by decide)
  · split
    · exact .ok _
    · exact .fault script _ (by decide)

/-- The answers to a call within two numbers of nested steps are settled. -/
def Reading.Settles (script : Script) (m n : Nat) : Reading → Prop
  | .block opener ts => Settled (parseScriptBlock script opener ts m) (parseScriptBlock script opener ts n)
  | .named closing ts =>
    Settled (parseNamedBlocks script closing ts m) (parseNamedBlocks script closing ts n)
  | .statements closing ts =>
    Settled (parseStatements script closing ts m) (parseStatements script closing ts n)
  | .function kind keyword ts =>
    Settled (parseFunction script kind keyword ts m) (parseFunction script kind keyword ts n)
  | .pipeline depth afterPipe stop ts => Settled (parsePipeline script depth afterPipe stop ts m)
      (parsePipeline script depth afterPipe stop ts n)
  | .hashtable opener ts =>
    Settled (parseHashtable script opener ts m) (parseHashtable script opener ts n)

section Steps

variable {script : Script} {m n : Nat}

/-- A script block is settled if the calls it makes are. -/
theorem block_settles_step {opener : Option Token} {ts : List Token}
    (h : ∀ d, Calls script (.block opener ts) d → d.Settles script m n) :
    (Reading.block opener ts).Settles script (m + 1) (n + 1) := by
  simp only [Reading.Settles, parseScriptBlock_succ]
  refine (paramBlock_settled script ts).bind ?_
  rintro ⟨params, after⟩ hparams
  refine Settled.bind ?_ ?_
  · simp only [parseBody]
    split
    · exact h _ (.namedBody hparams ‹_›)
    · refine (h _ (.unnamedBody hparams (Bool.eq_false_iff.mpr ‹_›))).bind ?_
      rintro ⟨statements, rest⟩ -
      exact .ok _
  · rintro ⟨blocks, behind⟩ -
    exact closeBlock_settled script opener params blocks behind

theorem named_settles_step {closing : Bool} {ts : List Token}
    (h : ∀ d, Calls script (.named closing ts) d → d.Settles script m n) :
    (Reading.named closing ts).Settles script (m + 1) (n + 1) := by
  simp only [Reading.Settles]
  cases hskip : skipSeparators ts with
  | nil =>
    rw [parseNamedBlocks_nil closing hskip, parseNamedBlocks_nil closing hskip]
    exact .ok _
  | cons t after =>
    by_cases hclose : closing = true ∧ t.kind = .closing .brace
    · obtain ⟨rfl, hclose⟩ := hclose
      rw [parseNamedBlocks_closed hskip hclose, parseNamedBlocks_closed hskip hclose]
      exact .ok _
    cases hkind : namedBlockKind? (t :: after) with
    | none =>
      rw [parseNamedBlocks_unexpected hskip hclose hkind,
        parseNamedBlocks_unexpected hskip hclose hkind]
      exact .fault script _ (by simp)
    | some kind =>
      obtain ⟨opener, inner, hopener, -⟩ := opener_of_namedBlockKind? hkind
      rw [parseNamedBlocks_block hskip hclose hkind hopener,
        parseNamedBlocks_block hskip hclose hkind hopener]
      refine (h _ (.namedStatements hskip hkind hopener)).bind ?_
      rintro ⟨statements, behind⟩ hstatements
      -- the next call depends on what the first one has read
      have hreads := (derivable script m).statements hstatements
      cases behind with
      | nil => exact .fault script _ (by decide)
      | cons close rest =>
        simp only [parseNamedRest]
        split
        · refine (h _ (.nextNamed hskip hkind hopener hreads ‹_›)).bind ?_
          rintro ⟨blocks, rest⟩ -
          exact .ok _
        · exact .fault script _ (by decide)

theorem statements_settles_step {closing : Bool} {ts : List Token}
    (h : ∀ d, Calls script (.statements closing ts) d → d.Settles script m n) :
    (Reading.statements closing ts).Settles script (m + 1) (n + 1) := by
  simp only [Reading.Settles]
  cases hskip : skipSeparators ts with
  | nil =>
    rw [parseStatements_nil closing hskip, parseStatements_nil closing hskip]
    exact .ok _
  | cons t after =>
    by_cases hclose : t.kind = .closing .brace
    · rw [parseStatements_closing hskip hclose, parseStatements_closing hskip hclose]
      split
      · exact .ok _
      · exact .fault script _ (by simp)
    by_cases hdeclare : ∃ kind, t.kind = .keyword (.declare kind)
    · obtain ⟨kind, hkind⟩ := hdeclare
      rw [parseStatements_function hskip hkind, parseStatements_function hskip hkind]
      refine (h _ (.function hskip hkind)).bind ?_
      rintro ⟨definition, behind⟩ hdefinition
      have hreads := (derivable script m).function hdefinition
      exact (h _ (.afterFunction hskip hkind hreads)).bind fun _ _ => .ok _
    · have hdeclare := not_exists.mp hdeclare
      rw [parseStatements_pipeline hskip hclose hdeclare, parseStatements_pipeline hskip hclose hdeclare]
      refine (h _ (.pipeline hskip hclose hdeclare)).bind ?_
      rintro ⟨blocks, stop, behind⟩ hblocks
      have hreads := (derivable script m).pipeline hblocks
      exact (h _ (.afterPipeline hskip hclose hdeclare hreads)).bind fun _ _ => .ok _

theorem function_settles_step {kind : FunctionKind} {keyword : Token} {ts : List Token}
    (h : ∀ d, Calls script (.function kind keyword ts) d → d.Settles script m n) :
    (Reading.function kind keyword ts).Settles script (m + 1) (n + 1) := by
  simp only [Reading.Settles]
  cases ts with
  | nil =>
    rw [parseFunction, parseFunction]
    exact .fault script _ (by decide)
  | cons name after =>
    rw [parseFunction_cons, parseFunction_cons]
    split
    · refine (inlineParameters_settled script after).bind ?_
      rintro ⟨parameters, rest⟩ hparameters
      cases rest with
      | nil => exact .fault script _ (by simp)
      | cons opener inner =>
        simp only [parseFunctionBody]
        split
        · refine (h _ (.body ‹_› hparameters ‹_›)).bind ?_
          rintro ⟨body, rest⟩ -
          exact .ok _
        · exact .fault script _ (by simp)
    · exact .fault script _ (by decide)

theorem pipeline_settles_step {depth : Nat} {afterPipe : Bool} {stop : Nat} {ts : List Token}
    (h : ∀ d, Calls script (.pipeline depth afterPipe stop ts) d → d.Settles script m n) :
    (Reading.pipeline depth afterPipe stop ts).Settles script (m + 1) (n + 1) := by
  simp only [Reading.Settles]
  cases ts with
  | nil =>
    rw [parsePipeline, parsePipeline]
    exact .ok _
  | cons t ts =>
    rcases pipeline_cases depth afterPipe t.kind with hends | hkind | hkind | ⟨htrivia, hgoes⟩ |
      ⟨htrivia, hbrace, hgoes⟩
    · rw [parsePipeline_ended hends, parsePipeline_ended hends]
      exact .ok _
    · rw [parsePipeline_brace hkind, parsePipeline_brace hkind]
      refine (h _ (.pipelineBlock hkind)).bind ?_
      rintro ⟨block, behind⟩ hblock
      have hreads := (derivable script m).block hblock
      exact (h _ (.pipelineAfterBlock hkind hreads)).bind fun _ _ => .ok _
    · rw [parsePipeline_atBrace hkind, parsePipeline_atBrace hkind]
      refine (h _ (.pipelineHashtable hkind)).bind ?_
      rintro ⟨inner, close, behind⟩ hinner
      have hreads := (derivable script m).hashtable hinner
      exact (h _ (.pipelineAfterHashtable hkind hreads)).bind fun _ _ => .ok _
    · rw [parsePipeline_trivia htrivia hgoes, parsePipeline_trivia htrivia hgoes]
      exact h _ (.pipelineTrivia htrivia hgoes)
    · rw [parsePipeline_token htrivia hbrace hgoes, parsePipeline_token htrivia hbrace hgoes]
      exact h _ (.pipelineToken htrivia hbrace hgoes)

theorem hashtable_settles_step {opener : Token} {ts : List Token}
    (h : ∀ d, Calls script (.hashtable opener ts) d → d.Settles script m n) :
    (Reading.hashtable opener ts).Settles script (m + 1) (n + 1) := by
  simp only [Reading.Settles]
  cases ts with
  | nil =>
    rw [parseHashtable_nil, parseHashtable_nil]
    exact .fault script _ (by decide)
  | cons t ts =>
    by_cases hclose : t.kind = .closing .brace
    · rw [parseHashtable_closed hclose, parseHashtable_closed hclose]
      exact .ok _
    by_cases hbrace : t.kind = .opening .brace
    · rw [parseHashtable_block hbrace, parseHashtable_block hbrace]
      refine (h _ (.hashtableBlock hbrace)).bind ?_
      rintro ⟨block, behind⟩ hblock
      have hreads := (derivable script m).block hblock
      exact (h _ (.hashtableAfterBlock hbrace hreads)).bind fun _ _ => .ok _
    by_cases hat : t.kind = .opening .atBrace
    · rw [parseHashtable_nested hat, parseHashtable_nested hat]
      refine (h _ (.hashtableNested hat)).bind ?_
      rintro ⟨inner, close, behind⟩ hinner
      have hreads := (derivable script m).hashtable hinner
      exact (h _ (.hashtableAfterNested hat hreads)).bind fun _ _ => .ok _
    · have hopens : ¬ OpensBrace t.kind := not_or.mpr ⟨hbrace, hat⟩
      rw [parseHashtable_token hclose hopens, parseHashtable_token hclose hopens]
      exact h _ (.hashtableToken hclose hopens)

/-- A call is settled with one more step as soon as the calls that it leads to are settled: its answer
    depends on nothing else. -/
theorem settles_step {c : Reading} (h : ∀ d, Calls script c d → d.Settles script m n) :
    c.Settles script (m + 1) (n + 1) := by
  cases c with
  | block opener ts => exact block_settles_step h
  | named closing ts => exact named_settles_step h
  | statements closing ts => exact statements_settles_step h
  | function kind keyword ts => exact function_settles_step h
  | pipeline depth afterPipe stop ts => exact pipeline_settles_step h
  | hashtable opener ts => exact hashtable_settles_step h

end Steps

/-- Steps beyond what a call brings down make no difference. -/
theorem settles_of_measure (script : Script) : ∀ (m n : Nat) (c : Reading), c.measure < m →
    c.measure < n → c.Settles script m n
  | 0, _, _, hm, _ => absurd hm (Nat.not_lt_zero _)
  | _, 0, _, _, hn => absurd hn (Nat.not_lt_zero _)
  | m + 1, n + 1, c, hm, hn => settles_step fun d hcall => by
    have hless := hcall.progress.2
    exact settles_of_measure script m n d (by omega) (by omega)

/-! ### Loops over single tokens -/

/-- Every turn of the loop reads one token: it leaves the loop there or goes on behind it. -/
def LoopsByToken {σ α : Type} (loop : σ → List Token → Except ParseError α) : Prop :=
  ∀ state t, (∃ answer : List Token → α, ∀ ts, loop state (t :: ts) = .ok (answer ts)) ∨
    ∃ next finish, ∀ ts, loop state (t :: ts) = (loop next ts).map finish

theorem parameterList_loopsByToken (script : Script) (opener : Token) :
    LoopsByToken fun state : Segment × Nat => parameterList script opener state.1 state.2 := by
  rintro ⟨segment, depth⟩ t
  simp only [parameterList]
  by_cases hclose : depth = 0 ∧ t.kind = .closing .paren
  · exact .inl ⟨fun ts => ⟨(segment.parameter? script).toList, t, ts⟩, fun ts => if_pos hclose⟩
  by_cases hcomma : depth = 0 ∧ t.kind = .comma
  · refine .inr ⟨({}, 0), fun list => { list with
      parameters := (segment.parameter? script).toList ++ list.parameters }, fun ts => ?_⟩
    rw [if_neg hclose, if_pos hcomma]
    rfl
  · refine .inr ⟨segment.read script depth t, id, fun ts => ?_⟩
    rw [if_neg hclose, if_neg hcomma, Except.map_id]
    rfl

theorem attributeGroups_loopsByToken (script : Script) : LoopsByToken (attributeGroups script) := by
  rintro (_ | ⟨opener, depth⟩) t
  · simp only [attributeGroups]
    by_cases htrivia : t.kind.isTrivia = true
    · exact .inr ⟨none, id, fun ts => by rw [if_pos htrivia, Except.map_id]; rfl⟩
    by_cases hbracket : t.kind = .opening .bracket
    · refine .inr ⟨some (t, 1), id, fun ts => ?_⟩
      rw [if_neg htrivia, if_pos hbracket, Except.map_id]
      rfl
    · exact .inl ⟨fun ts => ([], t :: ts), fun ts => by rw [if_neg htrivia, if_neg hbracket]⟩
  · simp only [attributeGroups]
    by_cases hopens : t.kind.opensGroup = true
    · exact .inr ⟨some (opener, depth + 1), id, fun ts => by rw [if_pos hopens, Except.map_id]; rfl⟩
    by_cases hcloses : t.kind.closesGroup = true
    · by_cases hdepth : depth ≤ 1
      · refine .inr ⟨none, fun answer => (script.text opener.start t.stop :: answer.1, answer.2),
          fun ts => ?_⟩
        rw [if_neg hopens, if_pos hcloses, if_pos hdepth]
        rfl
      · refine .inr ⟨some (opener, depth - 1), id, fun ts => ?_⟩
        rw [if_neg hopens, if_pos hcloses, if_neg hdepth, Except.map_id]
        rfl
    · refine .inr ⟨some (opener, depth), id, fun ts => ?_⟩
      rw [if_neg hopens, if_neg hcloses, Except.map_id]
      rfl

/-! ### The end of a script -/

/-- Statements outside braces are read up to the last token. -/
theorem ReadsStatements.rest_eq_nil {script : Script} : ∀ {ts : List Token}
    {statements : List Statement} {rest : List Token},
    ReadsStatements script false ts statements rest → rest = []
  | _, _, _, .finish _ => rfl
  | _, _, _, .function _ _ _ hothers => hothers.rest_eq_nil
  | _, _, _, .pipeline _ _ _ _ hothers => hothers.rest_eq_nil

theorem ReadsNamed.rest_eq_nil {script : Script} : ∀ {ts : List Token}
    {blocks : List NamedBlock} {rest : List Token},
    ReadsNamed script false ts blocks rest → rest = []
  | _, _, _, .finish _ => rfl
  | _, _, _, .block _ _ _ _ _ _ hblocks => hblocks.rest_eq_nil

theorem ReadsBlock.rest_eq_nil {script : Script} {ts : List Token} {block : ScriptBlock}
    {rest : List Token} (h : ReadsBlock script none ts block rest) : rest = [] := by
  cases h with
  | whole _ hbody =>
    cases hbody with
    | named _ hnamed => exact hnamed.rest_eq_nil
    | unnamed _ hstatements => exact hstatements.rest_eq_nil

/-- The tree of a script is what its root reads: no token is ever left over. -/
theorem parseTokens_eq_map (script : Script) : parseTokens script =
    (parseScriptBlock script none script.tokens (3 * script.tokens.length + 3)).map Prod.fst := by
  rw [parseTokens]
  cases hroot : parseScriptBlock script none script.tokens (3 * script.tokens.length + 3) with
  | error e => rfl
  | ok answer =>
    obtain ⟨root, rest⟩ := answer
    obtain rfl := ((derivable script _).block hroot).rest_eq_nil
    rfl

/-- The parser ends on every list of tokens. A chain of calls that comes back to a function, or to
    another of no lower rank, gets there with fewer tokens. The answer of a call depends on the calls
    that it leads to alone, so the number of nested steps makes no difference from the bound on, and
    the bound is never the cause of an error. -/
theorem parser_ends (script : Script) :
    (∀ {c d}, Relation.TransGen (Calls script) c d → d.tokens <:+ c.tokens ∧
      (c.rank ≤ d.rank → d.tokens.length < c.tokens.length)) ∧
    (∀ {m n c}, (∀ d, Calls script c d → d.Settles script m n) →
      c.Settles script (m + 1) (n + 1)) ∧
    (∀ opener, LoopsByToken fun state : Segment × Nat =>
      parameterList script opener state.1 state.2) ∧
    LoopsByToken (attributeGroups script) ∧
    (∀ fuel ≥ 3 * script.tokens.length + 3,
      Settled (parseScriptBlock script none script.tokens (3 * script.tokens.length + 3))
        (parseScriptBlock script none script.tokens fuel)) ∧
    (∀ {fuel root rest}, parseScriptBlock script none script.tokens fuel = .ok (root, rest) →
      rest = []) ∧
    parseTokens script =
      (parseScriptBlock script none script.tokens (3 * script.tokens.length + 3)).map Prod.fst ∧
    LooksWithin script := by
  refine ⟨fun {c d} hchain => ?_, settles_step, parameterList_loopsByToken script,
    attributeGroups_loopsByToken script, fun fuel hfuel => ?_, fun hroot => ?_,
    parseTokens_eq_map script, looksWithin script⟩
  · obtain ⟨hsuffix, hmeasure⟩ := progress_of_chain hchain
    refine ⟨hsuffix, fun hrank => ?_⟩
    simp only [Reading.measure] at hmeasure
    omega
  · refine settles_of_measure script _ _ (.block none script.tokens) ?_ ?_
    · simp [Reading.measure, Reading.tokens, Reading.rank]
    · simp only [Reading.measure, Reading.tokens, Reading.rank]
      omega
  · exact ((derivable script _).block hroot).rest_eq_nil

/-- Two tokens with offsets of no source: a hashtable that never ends. -/
theorem parser_ends_unclosed : ∃ script : Script,
    script.tokens = [⟨.opening .atBrace, "", 9, 4⟩, ⟨.closing .paren, ")", 2, 1⟩] ∧
    parseTokens script = script.fault 9 .missingBrace ∧
    ∀ fuel ≥ 9, Settled (parseScriptBlock script none script.tokens 9)
      (parseScriptBlock script none script.tokens fuel) := by
  refine ⟨⟨[], none, [⟨.opening .atBrace, "", 9, 4⟩, ⟨.closing .paren, ")", 2, 1⟩]⟩, rfl, rfl, ?_⟩
  obtain ⟨-, -, -, -, hbound, -⟩ :=
    parser_ends ⟨[], none, [⟨.opening .atBrace, "", 9, 4⟩, ⟨.closing .paren, ")", 2, 1⟩]⟩
  exact hbound

end HelpAudit
