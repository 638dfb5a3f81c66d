import HelpAudit.Proofs.DerivedRuns
import HelpAudit.Proofs.MovedStatements

/-! What two scripts read of one stretch, once both read it to its end. At each step the token that
    comes next decides which rule applies, so the two derivations go side by side; hence the script
    blocks of the stretch that have no parameter block find none in the second script. -/

namespace HelpAudit

/-! ### The rule that applies -/

section Inversion

variable {script : Script} {depth : Nat} {afterPipe : Bool} {stop last : Nat} {t : Token}
  {ts rest : List Token} {blocks : List ScriptBlock}

theorem ReadsPipeline.of_ended
    (h : ReadsPipeline script depth afterPipe stop (t :: ts) blocks last rest)
    (hends : EndsPipeline depth afterPipe t.kind) : rest = t :: ts := by
  cases h with
  | ended _ => rfl
  | trivia _ hnot _ => exact absurd hends hnot
  | block hkind _ _ => exact absurd hends (by simp [EndsPipeline, hkind])
  | hashtable hkind _ _ => exact absurd hends (by simp [EndsPipeline, hkind])
  | token _ _ hnot _ => exact absurd hends hnot

theorem ReadsPipeline.of_trivia
    (h : ReadsPipeline script depth afterPipe stop (t :: ts) blocks last rest)
    (htrivia : t.kind.isTrivia = true) (hnot : ¬ EndsPipeline depth afterPipe t.kind) :
    ReadsPipeline script depth afterPipe stop ts blocks last rest := by
  cases h with
  | ended hends => exact absurd hends hnot
  | trivia _ _ hrest => exact hrest
  | block hkind _ _ => rw [hkind] at htrivia; cases htrivia
  | hashtable hkind _ _ => rw [hkind] at htrivia; cases htrivia
  | token hcode _ _ _ => rw [hcode] at htrivia; cases htrivia

theorem ReadsPipeline.of_brace
    (h : ReadsPipeline script depth afterPipe stop (t :: ts) blocks last rest)
    (hbrace : t.kind = .opening .brace) : ∃ block behind others, blocks = block :: others ∧
      ReadsBlock script (some t) ts block behind ∧
      ReadsPipeline script depth false block.extent.endOffset behind others last rest := by
  cases h with
  | ended hends => exact absurd hends (by simp [EndsPipeline, hbrace])
  | trivia htrivia _ _ => rw [hbrace] at htrivia; cases htrivia
  | block _ hblock hrest => exact ⟨_, _, _, rfl, hblock, hrest⟩
  | hashtable hkind _ _ => rw [hbrace] at hkind; cases hkind
  | token _ hnot _ _ => exact absurd (.inl hbrace) hnot

theorem ReadsPipeline.of_atBrace
    (h : ReadsPipeline script depth afterPipe stop (t :: ts) blocks last rest)
    (hbrace : t.kind = .opening .atBrace) : ∃ inner close behind others,
      ReadsHashtable script ts inner close behind ∧
      ReadsPipeline script depth false close behind others last rest := by
  cases h with
  | ended hends => exact absurd hends (by simp [EndsPipeline, hbrace])
  | trivia htrivia _ _ => rw [hbrace] at htrivia; cases htrivia
  | block hkind _ _ => rw [hbrace] at hkind; cases hkind
  | hashtable _ hinner hrest => exact ⟨_, _, _, _, hinner, hrest⟩
  | token _ hnot _ _ => exact absurd (.inr hbrace) hnot

theorem ReadsPipeline.of_token
    (h : ReadsPipeline script depth afterPipe stop (t :: ts) blocks last rest)
    (hcode : t.kind.isTrivia = false) (hbrace : ¬ OpensBrace t.kind)
    (hnot : ¬ EndsPipeline depth afterPipe t.kind) :
    ReadsPipeline script (depthAfter t.kind depth) (t.kind = .pipe) t.stop ts blocks last rest := by
  cases h with
  | ended hends => exact absurd hends hnot
  | trivia htrivia _ _ => rw [hcode] at htrivia; cases htrivia
  | block hkind _ _ => exact absurd (.inl hkind) hbrace
  | hashtable hkind _ _ => exact absurd (.inr hkind) hbrace
  | token _ _ _ hrest => exact hrest

theorem ReadsHashtable.of_closed (h : ReadsHashtable script (t :: ts) blocks stop rest)
    (hclose : t.kind = .closing .brace) : rest = ts := by
  cases h with
  | closed _ => rfl
  | block hkind _ _ => rw [hclose] at hkind; cases hkind
  | nested hkind _ _ => rw [hclose] at hkind; cases hkind
  | token hnot _ _ => exact absurd hclose hnot

theorem ReadsHashtable.of_brace (h : ReadsHashtable script (t :: ts) blocks stop rest)
    (hbrace : t.kind = .opening .brace) : ∃ block behind others,
      ReadsBlock script (some t) ts block behind ∧ ReadsHashtable script behind others stop rest := by
  cases h with
  | closed hclose => rw [hbrace] at hclose; cases hclose
  | block _ hblock hrest => exact ⟨_, _, _, hblock, hrest⟩
  | nested hkind _ _ => rw [hbrace] at hkind; cases hkind
  | token _ hnot _ => exact absurd (.inl hbrace) hnot

theorem ReadsHashtable.of_atBrace (h : ReadsHashtable script (t :: ts) blocks stop rest)
    (hbrace : t.kind = .opening .atBrace) : ∃ inner close behind others,
      ReadsHashtable script ts inner close behind ∧ ReadsHashtable script behind others stop rest := by
  cases h with
  | closed hclose => rw [hbrace] at hclose; cases hclose
  | block hkind _ _ => rw [hbrace] at hkind; cases hkind
  | nested _ hinner hrest => exact ⟨_, _, _, _, hinner, hrest⟩
  | token _ hnot _ => exact absurd (.inr hbrace) hnot

theorem ReadsHashtable.of_token (h : ReadsHashtable script (t :: ts) blocks stop rest)
    (hclose : t.kind ≠ .closing .brace) (hbrace : ¬ OpensBrace t.kind) :
    ReadsHashtable script ts blocks stop rest := by
  cases h with
  | closed hkind => exact absurd hkind hclose
  | block hkind _ _ => exact absurd (.inl hkind) hbrace
  | nested hkind _ _ => exact absurd (.inr hkind) hbrace
  | token _ _ hrest => exact hrest

variable {closing : Bool} {after : List Token} {statements : List Statement} {named : List NamedBlock}
  (hskip : skipSeparators ts = t :: after)

include hskip

theorem ReadsStatements.of_closed (h : ReadsStatements script closing ts statements rest)
    (hclose : t.kind = .closing .brace) : rest = t :: after := by
  cases h with
  | finish hnil => rw [hnil] at hskip; cases hskip
  | closed hfirst _ => exact hfirst.symm.trans hskip
  | function hfirst hkind _ _ =>
    obtain ⟨rfl, rfl⟩ := List.cons.inj (hfirst.symm.trans hskip)
    rw [hclose] at hkind
    cases hkind
  | pipeline hfirst hnot _ _ _ =>
    obtain ⟨rfl, rfl⟩ := List.cons.inj (hfirst.symm.trans hskip)
    exact absurd hclose hnot

theorem ReadsStatements.of_function {kind : FunctionKind}
    (h : ReadsStatements script closing ts statements rest)
    (hkind : t.kind = .keyword (.declare kind)) : ∃ definition behind others,
      ReadsFunction script kind t after definition behind ∧
      ReadsStatements script closing behind others rest := by
  cases h with
  | finish hnil => rw [hnil] at hskip; cases hskip
  | closed hfirst hclose =>
    obtain ⟨rfl, rfl⟩ := List.cons.inj (hfirst.symm.trans hskip)
    rw [hclose] at hkind
    cases hkind
  | function hfirst hsame hfunction hothers =>
    obtain ⟨rfl, rfl⟩ := List.cons.inj (hfirst.symm.trans hskip)
    rw [hkind] at hsame
    cases hsame
    exact ⟨_, _, _, hfunction, hothers⟩
  | pipeline hfirst _ hnot _ _ =>
    obtain ⟨rfl, rfl⟩ := List.cons.inj (hfirst.symm.trans hskip)
    exact absurd hkind (hnot kind)

theorem ReadsStatements.of_pipeline (h : ReadsStatements script closing ts statements rest)
    (hclose : t.kind ≠ .closing .brace) (hdeclare : ∀ kind, t.kind ≠ .keyword (.declare kind)) :
    ∃ pipeline stop behind others, statements = .pipeline pipeline :: others ∧
      ReadsPipeline script 0 false 0 (t :: after) pipeline.scriptBlocks stop behind ∧
      ReadsStatements script closing behind others rest := by
  cases h with
  | finish hnil => rw [hnil] at hskip; cases hskip
  | closed hfirst hkind =>
    obtain ⟨rfl, rfl⟩ := List.cons.inj (hfirst.symm.trans hskip)
    exact absurd hkind hclose
  | function hfirst hkind _ _ =>
    obtain ⟨rfl, rfl⟩ := List.cons.inj (hfirst.symm.trans hskip)
    exact absurd hkind (hdeclare _)
  | pipeline hfirst _ _ hpipeline hothers =>
    obtain ⟨rfl, rfl⟩ := List.cons.inj (hfirst.symm.trans hskip)
    exact ⟨_, _, _, _, rfl, hpipeline, hothers⟩

theorem ReadsNamed.of_closed (h : ReadsNamed script closing ts named rest)
    (hclose : t.kind = .closing .brace) : rest = t :: after := by
  cases h with
  | finish hnil => rw [hnil] at hskip; cases hskip
  | closed hfirst _ => exact hfirst.symm.trans hskip
  | block hfirst hkind _ _ _ _ _ =>
    obtain ⟨rfl, rfl⟩ := List.cons.inj (hfirst.symm.trans hskip)
    rw [hclose] at hkind
    cases hkind

theorem ReadsNamed.of_block {kind : BlockKind} {opener : Token} {inner : List Token}
    (h : ReadsNamed script closing ts named rest) (hkind : t.kind = .keyword (.block kind))
    (hopener : skipTrivia after = opener :: inner) : ∃ statements close behind others,
      ReadsStatements script true inner statements (close :: behind) ∧
      ReadsNamed script closing behind others rest := by
  cases h with
  | finish hnil => rw [hnil] at hskip; cases hskip
  | closed hfirst hclose =>
    obtain ⟨rfl, rfl⟩ := List.cons.inj (hfirst.symm.trans hskip)
    rw [hclose] at hkind
    cases hkind
  | block hfirst _ hsame _ hstatements _ hblocks =>
    obtain ⟨rfl, rfl⟩ := List.cons.inj (hfirst.symm.trans hskip)
    obtain ⟨rfl, rfl⟩ := List.cons.inj (hsame.symm.trans hopener)
    exact ⟨_, _, _, _, hstatements, hblocks⟩

end Inversion

/-! ### Two readings of one stretch -/

theorem Token.Moved.symm {a b : Nat} {t t' : Token} (h : t.Moved a b t') : t'.Moved b a t :=
  ⟨h.kind.symm, h.value.symm, h.start.symm, h.stop.symm⟩

theorem Twin.symm {a b : Nat} {out out' ts ts' : List Token} (h : Twin a b out out' ts ts') :
    Twin b a out' out ts' ts := by
  induction h with
  | ends => exact .ends
  | cons ht _ ih => exact .cons ht.symm ih

/-- The last tokens of the stretch correspond. -/
theorem Twin.exists_last {a b : Nat} {out out' ts ts' : List Token} {u : Token}
    (h : Twin a b out out' ts ts') (hu : u :: out <:+ ts) :
    ∃ u', u' :: out' <:+ ts' ∧ u.Moved a b u' := by
  induction h with
  | ends => exact absurd hu (not_cons_suffix u out)
  | @cons t t' ts ts' ht hts ih =>
    rcases List.suffix_cons_iff.mp hu with heq | hu
    · cases heq
      cases hts.eq_of_end
      exact ⟨t', List.suffix_refl _, ht⟩
    · obtain ⟨u', hu', hmoved⟩ := ih hu
      exact ⟨u', hu'.trans (List.suffix_cons _ _), hmoved⟩

theorem alike_symm {ts ts' : List Token} (h : List.Forall₂ Link.outline.token ts ts') :
    List.Forall₂ Link.outline.token ts' ts :=
  h.flip.imp fun _ _ ht => ⟨ht.1.symm, fun hnames => (ht.2 (ht.1 ▸ hnames)).symm⟩

section Nodes

variable {script : Script} {stop : Nat} {behind : List Token}

theorem keepParams_node {node : Node} : KeepParams script stop behind [node] ↔
    node.keepsParams script stop behind = true ∧ KeepParams script stop behind node.children := by
  rw [KeepParams, List.forall_mem_singleton]
  exact Node.forall_mem_preorder

theorem keepParams_parameters (parameters : List Parameter) :
    KeepParams script stop behind (parameters.map .parameter) := by
  intro node hnode
  obtain ⟨parameter, -, rfl⟩ := List.mem_map.mp hnode
  exact Node.forall_mem_preorder.mpr ⟨rfl, List.forall_mem_nil _⟩

theorem keepParams_paramBlock (params : Option ParamBlock) :
    KeepParams script stop behind (params.map .paramBlock).toList := by
  cases params with
  | none => exact List.forall_mem_nil _
  | some params => exact keepParams_node.mpr ⟨rfl, keepParams_parameters _⟩

end Nodes

section Readings

variable {script script' : Script} {edge a b : Nat} {out out' : List Token}

/-- Either both find a parameter block inside the stretch, or none of them does. -/
theorem Twin.params_alike {ts ts' after after' : List Token} {params params' : Option ParamBlock}
    (htwin : Twin a b out out' ts ts') (h : paramBlock script ts = .ok (params, after))
    (hout : out <:+ after) (h' : paramBlock script' ts' = .ok (params', after')) (hout' : out' <:+ after') :
    Twin a b out out' after after' ∧
      (params = none → paramBlock script' ts' = .ok (none, ts')) := by
  cases params with
  | some params =>
    obtain ⟨_, _, hfound, htwin'⟩ := paramBlock_twin h hout htwin
    cases h'.symm.trans hfound
    exact ⟨htwin', fun hnone => absurd hnone (Option.some_ne_none _)⟩
  | none =>
    cases params' with
    | some params' =>
      obtain ⟨_, _, hfound, -⟩ := paramBlock_twin h' hout' htwin.symm
      cases h.symm.trans hfound
    | none =>
      obtain rfl := paramBlock_none h
      obtain rfl := paramBlock_none h'
      exact ⟨htwin, fun _ => h'⟩

theorem Stretch.keepsParams (hs : Stretch script edge out) {first : Token} {ts ts' : List Token}
    {block : ScriptBlock} (hts : first :: ts <:+ script.tokens)
    (hstart : block.extent.startOffset = first.start) (htwin : Twin a b out out' ts ts')
    (h : block.paramBlock = none → paramBlock script' ts' = .ok (none, ts')) :
    (Node.scriptBlock block).keepsParams script edge out' = true := by
  rw [Node.keepsParams, Bool.or_eq_true]
  cases hparams : block.paramBlock with
  | some params => exact .inl rfl
  | none =>
    obtain ⟨w, rfl, halike⟩ := htwin.alike
    rw [hstart, hs.between_behind hts]
    exact .inr (findsNoParams_of_alike (alike_symm halike) (findsNoParams_iff.mpr (h hparams)))

mutual

/-- A script block that both scripts read inside the stretch. -/
theorem ReadsBlock.keeps (hs : Stretch script edge out) {opener : Option Token} {ts : List Token}
    {block : ScriptBlock} {rest : List Token} : ReadsBlock script opener ts block rest →
    ∀ {first first' : Token} {ts' : List Token} {block' : ScriptBlock} {rest' : List Token},
    opener = some first → first :: ts <:+ script.tokens → out <:+ rest → Twin a b out out' ts ts' →
    ReadsBlock script' (some first') ts' block' rest' → out' <:+ rest' →
    KeepParams script edge out' [.scriptBlock block] ∧ Twin a b out out' rest rest'
  | .whole _ _, _, _, _, _, _, h, _, _, _, _, _ => nomatch h
  | .braced hparams hbody hclose, first, first', ts', block', rest', hopener, hts, hout, htwin, h',
      hout' => by
    cases hopener
    cases h' with
    | braced hparams' hbody' _ =>
      have hafter := hbody.suffix.trans (skipSeparators_suffix _)
      have hafter' := hbody'.suffix.trans (skipSeparators_suffix _)
      obtain ⟨htwin', hnone⟩ := htwin.params_alike hparams (hout.trans (suffix_of_cons_suffix hafter))
        hparams' (hout'.trans (suffix_of_cons_suffix hafter'))
      have htokens := (skipSeparators_suffix _).trans
        ((paramBlock_suffix hparams).trans (suffix_of_cons_suffix hts))
      obtain ⟨hblocks, hrest⟩ := hbody.keeps hs rfl hclose htokens hout
        (htwin'.skipSeparators_of_close hbody.suffix hout) hbody' hout'
      refine ⟨keepParams_node.mpr ⟨?_, keepParams_append.mpr ⟨keepParams_paramBlock _, hblocks⟩⟩, hrest⟩
      exact hs.keepsParams hts (Script.extent_startOffset (hs.placed.mem hts).start_boundary _) htwin
        hnone

theorem ReadsBody.keeps (hs : Stretch script edge out) {closing : Bool} {ts : List Token}
    {blocks : List NamedBlock} {rest : List Token} : ReadsBody script closing ts blocks rest →
    ∀ {close close' : Token} {more more' ts' : List Token} {blocks' : List NamedBlock},
    rest = close :: more → close.kind = .closing .brace → ts <:+ script.tokens → out <:+ more →
    Twin a b out out' ts ts' → ReadsBody script' closing ts' blocks' (close' :: more') →
    out' <:+ more' →
    KeepParams script edge out' (blocks.map .namedBlock) ∧ Twin a b out out' more more'
  | .named hkind hnamed, close, close', more, more', ts', blocks', hrest, hclose, hts, hout, htwin, h',
      hout' => by
    rw [← namedBlockKind?_twin (hrest ▸ hnamed.suffix) hclose hout htwin] at hkind
    cases h' with
    | named _ hnamed' => exact hnamed.keeps hs hrest hts hout htwin hnamed' hout'
    | unnamed hnot _ => rw [hkind] at hnot; cases hnot
  | .unnamed hkind hstatements, close, close', more, more', ts', blocks', hrest, hclose, hts, hout, htwin,
      h', hout' => by
    rw [← namedBlockKind?_twin (hrest ▸ hstatements.suffix) hclose hout htwin] at hkind
    cases h' with
    | named hnot _ => rw [hkind] at hnot; cases hnot
    | unnamed _ hstatements' =>
      obtain ⟨hkeep, htwin'⟩ := hstatements.keeps hs hrest hts hout htwin hstatements' hout'
      exact ⟨keepParams_node.mpr ⟨rfl, hkeep⟩, htwin'⟩

theorem ReadsNamed.keeps (hs : Stretch script edge out) {closing : Bool} {ts : List Token}
    {blocks : List NamedBlock} {rest : List Token} : ReadsNamed script closing ts blocks rest →
    ∀ {close close' : Token} {more more' ts' : List Token} {blocks' : List NamedBlock},
    rest = close :: more → ts <:+ script.tokens → out <:+ more → Twin a b out out' ts ts' →
    ReadsNamed script' closing ts' blocks' (close' :: more') → out' <:+ more' →
    KeepParams script edge out' (blocks.map .namedBlock) ∧ Twin a b out out' more more'
  | .finish _, _, _, _, _, _, _, h, _, _, _, _, _ => nomatch h
  | .closed hskip hclose, close, close', more, more', ts', blocks', hrest, hts, hout, htwin, h', hout' => by
    cases hrest
    obtain ⟨c, cs, hskip', hmoved, hmore⟩ := htwin.skipSeparators hskip hout
    cases h'.of_closed hskip' (hmoved.kind.trans hclose)
    exact ⟨List.forall_mem_nil _, hmore⟩
  | .block hskip hkind hopener hbrace hstatements hclose hblocks, close, close', more, more', ts', blocks',
      hrest, hts, hout, htwin, h', hout' => by
    have hbehind := hout.trans (suffix_of_cons_suffix (hrest ▸ hblocks.suffix))
    have hinner := hbehind.trans (suffix_of_cons_suffix hstatements.suffix)
    have hafter := suffix_of_cons_suffix (hopener ▸ skipTrivia_suffix _)
    have htokens := hafter.trans (suffix_of_cons_suffix ((suffix_of_skipSeparators hskip).trans hts))
    obtain ⟨t', after', hskip', ht, hafter'⟩ := htwin.skipSeparators hskip (hinner.trans hafter)
    obtain ⟨opener', inner', hopener', ho, hinner'⟩ := hafter'.skipTrivia hopener hinner
    obtain ⟨statements', c, behind', others', hstatements', hblocks'⟩ :=
      -- the second reading finds the same keyword, so it has read a block as well
      h'.of_block hskip' (ht.kind.trans hkind) hopener'
    obtain ⟨hfirst, hbehind'⟩ := hstatements.keeps hs rfl htokens hbehind hinner' hstatements'
      (hout'.trans (suffix_of_cons_suffix hblocks'.suffix))
    obtain ⟨hothers, hmore⟩ := hblocks.keeps hs hrest
      ((suffix_of_cons_suffix hstatements.suffix).trans htokens) hout hbehind' hblocks' hout'
    exact ⟨keepParams_cons.mpr ⟨keepParams_node.mpr ⟨rfl, hfirst⟩, hothers⟩, hmore⟩

theorem ReadsStatements.keeps (hs : Stretch script edge out) {closing : Bool} {ts : List Token}
    {statements : List Statement} {rest : List Token} : ReadsStatements script closing ts statements rest →
    ∀ {close close' : Token} {more more' ts' : List Token} {statements' : List Statement},
    rest = close :: more → ts <:+ script.tokens → out <:+ more → Twin a b out out' ts ts' →
    ReadsStatements script' closing ts' statements' (close' :: more') → out' <:+ more' →
    KeepParams script edge out' (statements.map Statement.node) ∧ Twin a b out out' more more'
  | .finish _, _, _, _, _, _, _, h, _, _, _, _, _ => nomatch h
  | .closed hskip hclose, close, close', more, more', ts', statements', hrest, hts, hout, htwin, h',
      hout' => by
    cases hrest
    obtain ⟨c, cs, hskip', hmoved, hmore⟩ := htwin.skipSeparators hskip hout
    cases h'.of_closed hskip' (hmoved.kind.trans hclose)
    exact ⟨List.forall_mem_nil _, hmore⟩
  | .function hskip hkind hfunction hothers, close, close', more, more', ts', statements', hrest, hts, hout,
      htwin, h', hout' => by
    have hbehind := hout.trans (suffix_of_cons_suffix (hrest ▸ hothers.suffix))
    have htokens := suffix_of_cons_suffix ((suffix_of_skipSeparators hskip).trans hts)
    obtain ⟨t', after', hskip', ht, hafter'⟩ :=
      htwin.skipSeparators hskip (hbehind.trans hfunction.suffix)
    obtain ⟨definition', behind', others', hfunction', hothers'⟩ :=
      h'.of_function hskip' (ht.kind.trans hkind)
    obtain ⟨hfirst, hbehind'⟩ := hfunction.keeps hs htokens hbehind hafter' hfunction'
      (hout'.trans (suffix_of_cons_suffix hothers'.suffix))
    obtain ⟨hkeep, hmore⟩ := hothers.keeps hs hrest (hfunction.suffix.trans htokens) hout hbehind' hothers'
      hout'
    exact ⟨keepParams_cons.mpr ⟨hfirst, hkeep⟩, hmore⟩
  | .pipeline hskip hclose hdeclare hpipeline hothers, close, close', more, more', ts', statements', hrest,
      hts, hout, htwin, h', hout' => by
    have htokens := (suffix_of_skipSeparators hskip).trans hts
    obtain ⟨first, others, hfirst, hmore⟩ := exists_cons_of_suffix (hrest ▸ hothers.suffix)
    have hbehind := hout.trans hmore
    obtain ⟨t', after', hskip', ht, hafter'⟩ := htwin.skipSeparators hskip
      (hbehind.trans (suffix_of_cons_suffix_cons (hfirst ▸ hpipeline.suffix)))
    rw [← ht.kind] at hclose hdeclare
    obtain ⟨pipeline', stop', behind', others', -, hpipeline', hothers'⟩ :=
      -- the second pipeline may end elsewhere; only the induction shows that it does not
      h'.of_pipeline hskip' hclose hdeclare
    obtain ⟨first', last', rfl, hmore'⟩ := exists_cons_of_suffix hothers'.suffix
    obtain ⟨hkept, hmoved, hbehind'⟩ := hpipeline.keeps hs hfirst htokens hbehind (.cons ht hafter')
      hpipeline' (hout'.trans hmore')
    have hboth : Twin a b out out' (first :: others) (first' :: last') := .cons hmoved hbehind'
    rw [← hfirst] at hboth
    obtain ⟨hkeep, hrest'⟩ := hothers.keeps hs hrest (hpipeline.suffix.trans htokens) hout hboth hothers'
      hout'
    exact ⟨keepParams_cons.mpr ⟨keepParams_node.mpr ⟨rfl, hkept⟩, hkeep⟩, hrest'⟩

theorem ReadsFunction.keeps (hs : Stretch script edge out) {kind : FunctionKind} {keyword : Token}
    {ts : List Token} {definition : FunctionDefinition} {rest : List Token} :
    ReadsFunction script kind keyword ts definition rest →
    ∀ {keyword' : Token} {ts' : List Token} {definition' : FunctionDefinition} {rest' : List Token},
    ts <:+ script.tokens → out <:+ rest → Twin a b out out' ts ts' →
    ReadsFunction script' kind keyword' ts' definition' rest' → out' <:+ rest' →
    KeepParams script edge out' [.functionDefinition definition] ∧ Twin a b out out' rest rest'
  | .mk hname hparameters hbrace hbody, keyword', ts', definition', rest', hts, hout, htwin, h', hout' => by
    have hopener := inlineParameters_suffix hparameters
    have hinner := hout.trans hbody.suffix
    obtain ⟨name', more, rfl, hn, hmore⟩ := htwin.tail (hinner.trans (suffix_of_cons_suffix hopener))
    obtain ⟨parameters', opener', inner', hparameters', ho, hinner'⟩ :=
      inlineParameters_twin hparameters hinner hmore
    cases h' with
    | mk _ hsame _ hbody' =>
      cases hsame.symm.trans hparameters'
      obtain ⟨hkeep, hrest⟩ := hbody.keeps hs rfl (hopener.trans (suffix_of_cons_suffix hts)) hout hinner'
        hbody' hout'
      exact ⟨keepParams_node.mpr ⟨rfl, keepParams_append.mpr ⟨keepParams_parameters _, hkeep⟩⟩, hrest⟩

/-- A pipeline that both scripts read inside the stretch, with the token behind it. -/
theorem ReadsPipeline.keeps (hs : Stretch script edge out) {depth : Nat} {afterPipe : Bool} {stop : Nat}
    {ts : List Token} {blocks : List ScriptBlock} {last : Nat} {rest : List Token} :
    ReadsPipeline script depth afterPipe stop ts blocks last rest →
    ∀ {first first' : Token} {stop' last' : Nat} {more more' ts' : List Token}
      {blocks' : List ScriptBlock}, rest = first :: more →
    ts <:+ script.tokens → out <:+ more → Twin a b out out' ts ts' →
    ReadsPipeline script' depth afterPipe stop' ts' blocks' last' (first' :: more') → out' <:+ more' →
    KeepParams script edge out' (blocks.map .scriptBlock) ∧ first.Moved a b first' ∧
      Twin a b out out' more more'
  | .finish, _, _, _, _, _, _, _, _, h, _, _, _, _, _ => nomatch h
  | .ended hends, first, first', stop', last', more, more', ts', blocks', hrest, hts, hout, htwin, h',
      hout' => by
    cases hrest
    obtain ⟨t', after', rfl, ht, hafter⟩ := htwin.tail hout
    cases h'.of_ended (ht.kind ▸ hends)
    exact ⟨List.forall_mem_nil _, ht, hafter⟩
  | .trivia htrivia hends hrest, first, first', stop', last', more, more', ts', blocks', h, hts, hout, htwin,
      h', hout' => by
    obtain ⟨t', after', rfl, ht, hafter⟩ := htwin.tail
      (hout.trans (suffix_of_cons_suffix (h ▸ hrest.suffix)))
    exact hrest.keeps hs h (suffix_of_cons_suffix hts) hout hafter
      (h'.of_trivia (ht.kind ▸ htrivia) (ht.kind ▸ hends)) hout'
  | .block hkind hblock hrest, first, first', stop', last', more, more', ts', blocks', h, hts, hout, htwin,
      h', hout' => by
    have hbehind := hout.trans (suffix_of_cons_suffix (h ▸ hrest.suffix))
    obtain ⟨t', after', rfl, ht, hafter⟩ := htwin.tail (hbehind.trans hblock.suffix)
    obtain ⟨block', behind', others', -, hblock', hrest'⟩ := h'.of_brace (ht.kind.trans hkind)
    obtain ⟨hfirst, hbehind'⟩ := hblock.keeps hs rfl hts hbehind hafter hblock'
      (hout'.trans (suffix_of_cons_suffix hrest'.suffix))
    obtain ⟨hothers, hmoved⟩ := hrest.keeps hs h (hblock.suffix.trans (suffix_of_cons_suffix hts)) hout
      hbehind' hrest' hout'
    exact ⟨keepParams_cons.mpr ⟨hfirst, hothers⟩, hmoved⟩
  | .hashtable hkind hinner hrest, first, first', stop', last', more, more', ts', blocks', h, hts, hout,
      htwin, h', hout' => by
    have hbehind := hout.trans (suffix_of_cons_suffix (h ▸ hrest.suffix))
    have htokens := suffix_of_cons_suffix hts
    obtain ⟨t', after', rfl, ht, hafter⟩ := htwin.tail (hbehind.trans hinner.suffix)
    obtain ⟨inner', close', behind', others', hinner', hrest'⟩ := h'.of_atBrace (ht.kind.trans hkind)
    obtain ⟨hfirst, hbehind'⟩ := hinner.keeps hs htokens hbehind hafter hinner'
      (hout'.trans (suffix_of_cons_suffix hrest'.suffix))
    obtain ⟨hothers, hmoved⟩ := hrest.keeps hs h (hinner.suffix.trans htokens) hout hbehind' hrest' hout'
    rw [List.map_append]
    exact ⟨keepParams_append.mpr ⟨hfirst, hothers⟩, hmoved⟩
  | .token htrivia hbrace hends hrest, first, first', stop', last', more, more', ts', blocks', h, hts, hout,
      htwin, h', hout' => by
    obtain ⟨t', after', rfl, ht, hafter⟩ := htwin.tail
      (hout.trans (suffix_of_cons_suffix (h ▸ hrest.suffix)))
    have hrest' := h'.of_token (ht.kind ▸ htrivia) (ht.kind ▸ hbrace) (ht.kind ▸ hends)
    rw [ht.kind] at hrest'
    exact hrest.keeps hs h (suffix_of_cons_suffix hts) hout hafter hrest' hout'

theorem ReadsHashtable.keeps (hs : Stretch script edge out) {ts : List Token}
    {blocks : List ScriptBlock} {stop : Nat} {rest : List Token} :
    ReadsHashtable script ts blocks stop rest →
    ∀ {stop' : Nat} {ts' rest' : List Token} {blocks' : List ScriptBlock}, ts <:+ script.tokens →
    out <:+ rest → Twin a b out out' ts ts' → ReadsHashtable script' ts' blocks' stop' rest' →
    out' <:+ rest' →
    KeepParams script edge out' (blocks.map .scriptBlock) ∧ Twin a b out out' rest rest'
  | .closed hkind, stop', ts', rest', blocks', hts, hout, htwin, h', hout' => by
    obtain ⟨t', after', rfl, ht, hafter⟩ := htwin.tail hout
    cases h'.of_closed (ht.kind.trans hkind)
    exact ⟨List.forall_mem_nil _, hafter⟩
  | .block hkind hblock hrest, stop', ts', rest', blocks', hts, hout, htwin, h', hout' => by
    have hbehind := hout.trans hrest.suffix
    obtain ⟨t', after', rfl, ht, hafter⟩ := htwin.tail (hbehind.trans hblock.suffix)
    obtain ⟨block', behind', others', hblock', hrest'⟩ := h'.of_brace (ht.kind.trans hkind)
    obtain ⟨hfirst, hbehind'⟩ := hblock.keeps hs rfl hts hbehind hafter hblock' (hout'.trans hrest'.suffix)
    obtain ⟨hothers, htwin'⟩ := hrest.keeps hs (hblock.suffix.trans (suffix_of_cons_suffix hts)) hout
      hbehind' hrest' hout'
    exact ⟨keepParams_cons.mpr ⟨hfirst, hothers⟩, htwin'⟩
  | .nested hkind hinner hrest, stop', ts', rest', blocks', hts, hout, htwin, h', hout' => by
    have hbehind := hout.trans hrest.suffix
    have htokens := suffix_of_cons_suffix hts
    obtain ⟨t', after', rfl, ht, hafter⟩ := htwin.tail (hbehind.trans hinner.suffix)
    obtain ⟨inner', close', behind', others', hinner', hrest'⟩ := h'.of_atBrace (ht.kind.trans hkind)
    obtain ⟨hfirst, hbehind'⟩ := hinner.keeps hs htokens hbehind hafter hinner' (hout'.trans hrest'.suffix)
    obtain ⟨hothers, htwin'⟩ := hrest.keeps hs (hinner.suffix.trans htokens) hout hbehind' hrest' hout'
    rw [List.map_append]
    exact ⟨keepParams_append.mpr ⟨hfirst, hothers⟩, htwin'⟩
  | .token hclose hbrace hrest, stop', ts', rest', blocks', hts, hout, htwin, h', hout' => by
    obtain ⟨t', after', rfl, ht, hafter⟩ := htwin.tail (hout.trans hrest.suffix)
    exact hrest.keeps hs (suffix_of_cons_suffix hts) hout hafter
      (h'.of_token (ht.kind ▸ hclose) (ht.kind ▸ hbrace)) hout'

end

end Readings

/-! ### Statements that end with the stretch -/

section Edge

variable {script script' : Script} {edge edge' a b : Nat} {out out' : List Token}
  (hs : Stretch script edge out) (hs' : Stretch script' edge' out')

include hs hs'

theorem ReadsPipeline.keeps_to_edge {depth : Nat} {afterPipe : Bool} {stop stop' : Nat}
    {ts ts' rest rest' : List Token} {blocks blocks' : List ScriptBlock}
    (h : ReadsPipeline script depth afterPipe stop ts blocks edge rest) (hts : ts <:+ script.tokens)
    (h' : ReadsPipeline script' depth afterPipe stop' ts' blocks' edge' rest')
    (hts' : ts' <:+ script'.tokens) (habove : Above stop ts)
    (hboundary : Text.IsBoundary script.source stop) (habove' : Above stop' ts')
    (hboundary' : Text.IsBoundary script'.source stop') (htwin : Twin a b out out' ts ts') :
    KeepParams script edge out' (blocks.map .scriptBlock) := by
  have hp := hs.placed
  have hp' := hs'.placed
  induction hn : ts.length using Nat.strongRecOn
    generalizing depth afterPipe stop stop' ts ts' blocks blocks' with
  | ind n ih =>
    subst hn
    cases htwin with
    | ends =>
      obtain ⟨rfl, -, -⟩ := h.idle hp hts habove hboundary hs.above
      exact List.forall_mem_nil _
    | @cons t t' us us' ht hus =>
      have htail := suffix_of_cons_suffix hts
      have htail' := suffix_of_cons_suffix hts'
      cases h with
      | ended hends =>
        have hlt := (hp.mem hts).nonempty
        have hbefore := habove.head
        have hbelow := hs.below hts hus.suffix
        omega
      | trivia htrivia hends hrest =>
        exact ih us.length (Nat.lt_succ_self _) hrest htail
          (h'.of_trivia (ht.kind ▸ htrivia) (ht.kind ▸ hends)) htail' habove.tail hboundary habove'.tail
          hboundary' hus rfl
      | block hkind hblock hrest =>
        obtain ⟨block', behind', others', -, hblock', hrest'⟩ := h'.of_brace (ht.kind.trans hkind)
        have hstands := hblock.stands_of_brace hp _ rfl hts
        have hstands' := hblock'.stands_of_brace hp' _ rfl hts'
        have hbehind := hblock.suffix.trans htail
        have hbehind' := hblock'.suffix.trans htail'
        have hle := (hrest.within hp hbehind hstands.above hstands.above hstands.exact.end_boundary).1
        have hle' :=
          (hrest'.within hp' hbehind' hstands'.above hstands'.above hstands'.exact.end_boundary).1
        obtain ⟨hfirst, htwin'⟩ := hblock.keeps hs rfl hts (hblock.out_suffix hs hts hus.suffix hle) hus
          hblock' (hblock'.out_suffix hs' hts' hus.symm.suffix hle')
        refine keepParams_cons.mpr ⟨hfirst, ?_⟩
        exact ih _ (Nat.lt_succ_of_le hblock.suffix.length_le) hrest hbehind hrest' hbehind' hstands.above
          hstands.exact.end_boundary hstands'.above hstands'.exact.end_boundary htwin' rfl
      | hashtable hkind hinner hrest =>
        obtain ⟨inner', close', behind', others', hinner', hrest'⟩ := h'.of_atBrace (ht.kind.trans hkind)
        obtain ⟨-, hinside, hlater, -⟩ := hinner.within hp htail (hp.above_stop hts)
        obtain ⟨-, hinside', hlater', -⟩ := hinner'.within hp' htail' (hp'.above_stop hts')
        have hbehind := hinner.suffix.trans htail
        have hbehind' := hinner'.suffix.trans htail'
        have hle := (hrest.within hp hbehind hlater hlater hinside).1
        have hle' := (hrest'.within hp' hbehind' hlater' hlater' hinside').1
        obtain ⟨hfirst, htwin'⟩ := hinner.keeps hs htail (hinner.out_suffix hs htail hus.suffix hle) hus
          hinner' (hinner'.out_suffix hs' htail' hus.symm.suffix hle')
        rw [List.map_append]
        refine keepParams_append.mpr ⟨hfirst, ?_⟩
        exact ih _ (Nat.lt_succ_of_le hinner.suffix.length_le) hrest hbehind hrest' hbehind' hlater hinside
          hlater' hinside' htwin' rfl
      | token htrivia hbrace hends hrest =>
        have hrest' := h'.of_token (ht.kind ▸ htrivia) (ht.kind ▸ hbrace) (ht.kind ▸ hends)
        rw [ht.kind] at hrest'
        exact ih us.length (Nat.lt_succ_self _) hrest htail hrest' htail' (hp.above_stop hts)
          (hp.mem hts).stop_boundary (hp'.above_stop hts') (hp'.mem hts').stop_boundary hus rfl

/-- Where two scripts read a statement up to the end of one stretch, its script blocks that have no
    parameter block find none in the second script. -/
theorem ReadsStatement.keeps_to_edge {t : Token} {ts ts' rest rest' : List Token}
    {statement statement' : Statement} (h : ReadsStatement script (t :: ts) statement rest)
    (hts : t :: ts <:+ script.tokens) (hedge : statement.extent.endOffset = edge)
    (h' : ReadsStatement script' ts' statement' rest') (hts' : ts' <:+ script'.tokens)
    (hedge' : statement'.extent.endOffset = edge') (hout : out <:+ ts)
    (htwin : Twin a b out out' (t :: ts) ts') : KeepParams script edge out' [statement.node] := by
  obtain ⟨t', us', rfl, ht, hus⟩ := htwin.tail hout
  have htail := suffix_of_cons_suffix hts
  have htail' := suffix_of_cons_suffix hts'
  cases h with
  | function hkind hfunction =>
    cases h' with
    | function hkind' hfunction' =>
      rw [ht.kind, hkind] at hkind'
      cases hkind'
      obtain ⟨close, hclose, -, hextent⟩ := hfunction.ends_closed
      obtain ⟨close', hclose', -, hextent'⟩ := hfunction'.ends_closed
      have hstop := (hs.placed.mem (hclose.trans htail)).stop_boundary
      have hstop' := (hs'.placed.mem (hclose'.trans htail')).stop_boundary
      rw [Statement.extent, hextent, Script.extent_endOffset hstop] at hedge
      rw [Statement.extent, hextent', Script.extent_endOffset hstop'] at hedge'
      exact (hfunction.keeps hs htail (hs.inside htail hout hclose (Nat.le_of_eq hedge)) hus hfunction'
        (hs'.inside htail' hus.symm.suffix hclose' (Nat.le_of_eq hedge'))).1
    | pipeline _ _ hnot _ => exact absurd (ht.kind.trans hkind) (hnot _)
  | pipeline hcode hclose hdeclare hpipeline =>
    cases h' with
    | function hkind' _ => exact absurd (ht.kind.symm.trans hkind') (hdeclare _)
    | pipeline _ _ _ hpipeline' =>
      obtain ⟨-, hboundary, -⟩ := hpipeline.within hs.placed hts (above_zero _) (above_zero _)
        (Text.isBoundary_zero _)
      obtain ⟨-, hboundary', -⟩ := hpipeline'.within hs'.placed hts' (above_zero _) (above_zero _)
        (Text.isBoundary_zero _)
      rw [Statement.extent, Script.extent_endOffset hboundary] at hedge
      rw [Statement.extent, Script.extent_endOffset hboundary'] at hedge'
      subst hedge
      subst hedge'
      exact keepParams_node.mpr ⟨rfl, hpipeline.keeps_to_edge hs hs' hts hpipeline' hts' (above_zero _)
        (Text.isBoundary_zero _) (above_zero _) (Text.isBoundary_zero _) htwin⟩

end Edge

/-! ### One reading -/

theorem Eventually.eq_of_ok {ε α : Type} {run : Nat → Except ε α} {x y : α}
    (hx : Eventually fun fuel => run fuel = .ok x) (hy : Eventually fun fuel => run fuel = .ok y) :
    x = y := by
  obtain ⟨least, h⟩ := hx.and hy
  obtain ⟨hx, hy⟩ := h least (Nat.le_refl _)
  exact Except.ok.inj (hx.symm.trans hy)

/-- From one place on, one statement is read. -/
theorem ReadsStatement.rest_unique {script : Script} {ts rest rest' : List Token}
    {statement statement' : Statement} (h : ReadsStatement script ts statement rest)
    (h' : ReadsStatement script ts statement' rest') : rest = rest' := by
  cases h with
  | function hkind hfunction =>
    cases h' with
    | function hkind' hfunction' =>
      rw [hkind] at hkind'
      cases hkind'
      exact congrArg Prod.snd (hfunction.runs.eq_of_ok hfunction'.runs)
    | pipeline _ _ hnot _ => exact absurd hkind (hnot _)
  | pipeline hcode hclose hdeclare hpipeline =>
    cases h' with
    | function hkind' _ => exact absurd hkind' (hdeclare _)
    | pipeline _ _ _ hpipeline' =>
      exact congrArg (fun r => r.2.2) (hpipeline.runs.eq_of_ok hpipeline'.runs)

end HelpAudit
