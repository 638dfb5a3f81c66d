import HelpAudit.Proofs.Termination

/-! Every derivation is a run of the parser. What the rules derive is read with any bound on nested steps
    that is high enough, and the bound that a script sets is; so to show that a script has a tree it is
    enough to derive one. -/

namespace HelpAudit

/-! ### High enough bounds -/

/-- It holds with every bound that is high enough. -/
def Eventually (p : Nat → Prop) : Prop := ∃ least, ∀ fuel, least ≤ fuel → p fuel

namespace Eventually

variable {p q r : Nat → Prop}

theorem of_succ (h : ∀ fuel, p (fuel + 1)) : Eventually p := by
  refine ⟨1, fun fuel hfuel => ?_⟩
  obtain ⟨fuel, rfl⟩ := Nat.exists_eq_add_of_le' hfuel
  exact h fuel

theorem mono (h : Eventually p) (hq : ∀ fuel, p fuel → q fuel) : Eventually q := by
  obtain ⟨least, h⟩ := h
  exact ⟨least, fun fuel hfuel => hq fuel (h fuel hfuel)⟩

/-- One step more needs a bound that is higher by one. -/
theorem step (h : Eventually p) (hq : ∀ fuel, p fuel → q (fuel + 1)) : Eventually q := by
  obtain ⟨least, h⟩ := h
  refine ⟨least + 1, fun fuel hfuel => ?_⟩
  obtain ⟨fuel, rfl⟩ := Nat.exists_eq_add_of_le' (Nat.le_of_add_left_le hfuel)
  exact hq fuel (h fuel (Nat.le_of_add_le_add_right hfuel))

theorem and (hp : Eventually p) (hq : Eventually q) : Eventually fun fuel => p fuel ∧ q fuel := by
  obtain ⟨least, hp⟩ := hp
  obtain ⟨other, hq⟩ := hq
  exact ⟨max least other, fun fuel hfuel =>
    ⟨hp fuel (Nat.le_trans (Nat.le_max_left _ _) hfuel),
      hq fuel (Nat.le_trans (Nat.le_max_right _ _) hfuel)⟩⟩

/-- A step that goes on after another one. -/
theorem step_and (hp : Eventually p) (hq : Eventually q)
    (hr : ∀ fuel, p fuel → q fuel → r (fuel + 1)) : Eventually r :=
  (hp.and hq).step fun fuel h => hr fuel h.1 h.2

end Eventually

/-! ### Runs -/

theorem namedBlockKind?_eq_some {t opener : Token} {ts inner : List Token} {kind : BlockKind}
    (hkind : t.kind = .keyword (.block kind)) (hopener : skipTrivia ts = opener :: inner)
    (hbrace : opener.kind = .opening .brace) : namedBlockKind? (t :: ts) = some kind := by
  simp [namedBlockKind?, hkind, nextKind?, hopener, hbrace]

mutual

/-- A derived block is read with every bound that is high enough; the same for the other relations. Each
    rule adds a step to the bounds of its premises. -/
theorem ReadsBlock.runs {script : Script} {opener : Option Token} {ts : List Token} {block : ScriptBlock}
    {rest : List Token} : ReadsBlock script opener ts block rest →
    Eventually fun fuel => parseScriptBlock script opener ts fuel = .ok (block, rest)
  | .whole hparams hbody => hbody.runs.step fun fuel hrun => by
    rw [parseScriptBlock_succ]
    exact bind_eq_ok.mpr ⟨_, hparams, bind_eq_ok.mpr ⟨_, hrun, rfl⟩⟩
  | .braced hparams hbody hclose => hbody.runs.step fun fuel hrun => by
    rw [parseScriptBlock_succ]
    exact bind_eq_ok.mpr ⟨_, hparams, bind_eq_ok.mpr ⟨_, hrun, if_pos hclose⟩⟩

theorem ReadsBody.runs {script : Script} {closing : Bool} {ts : List Token} {blocks : List NamedBlock}
    {rest : List Token} : ReadsBody script closing ts blocks rest →
    Eventually fun fuel => parseBody script closing ts fuel = .ok (blocks, rest)
  | .named hkind hnamed => hnamed.runs.mono fun fuel hrun => by
    rw [parseBody, if_pos hkind, hrun]
  | .unnamed hkind hstatements => hstatements.runs.mono fun fuel hrun => by
    rw [parseBody, if_neg (by simp [hkind]), hrun]
    rfl

theorem ReadsNamed.runs {script : Script} {closing : Bool} {ts : List Token} {blocks : List NamedBlock}
    {rest : List Token} : ReadsNamed script closing ts blocks rest →
    Eventually fun fuel => parseNamedBlocks script closing ts fuel = .ok (blocks, rest)
  | .finish hskip => .of_succ fun _ => parseNamedBlocks_nil _ hskip
  | .closed hskip hclose => .of_succ fun _ => parseNamedBlocks_closed hskip hclose
  | .block hskip hkind hopener hbrace hstatements hclose hblocks =>
    hstatements.runs.step_and hblocks.runs fun fuel hrun hnext => by
      rw [parseNamedBlocks_block hskip (by simp [hkind])
        (namedBlockKind?_eq_some hkind hopener hbrace) hopener]
      refine bind_eq_ok.mpr ⟨_, hrun, ?_⟩
      simp only [parseNamedRest, if_pos hclose, hnext]
      rfl

theorem ReadsStatements.runs {script : Script} {closing : Bool} {ts : List Token}
    {statements : List Statement} {rest : List Token} :
    ReadsStatements script closing ts statements rest →
    Eventually fun fuel => parseStatements script closing ts fuel = .ok (statements, rest)
  | .finish hskip => .of_succ fun _ => parseStatements_nil _ hskip
  | .closed hskip hclose => .of_succ fun _ => parseStatements_closing hskip hclose
  | .function hskip hkind hfunction hothers =>
    hfunction.runs.step_and hothers.runs fun fuel hrun hnext => by
      rw [parseStatements_function hskip hkind]
      exact bind_eq_ok.mpr ⟨_, hrun, bind_eq_ok.mpr ⟨_, hnext, rfl⟩⟩
  | .pipeline hskip hclose hdeclare hpipeline hothers =>
    hpipeline.runs.step_and hothers.runs fun fuel hrun hnext => by
      rw [parseStatements_pipeline hskip hclose hdeclare]
      exact bind_eq_ok.mpr ⟨_, hrun, bind_eq_ok.mpr ⟨_, hnext, rfl⟩⟩

theorem ReadsFunction.runs {script : Script} {kind : FunctionKind} {keyword : Token} {ts : List Token}
    {definition : FunctionDefinition} {rest : List Token} :
    ReadsFunction script kind keyword ts definition rest →
    Eventually fun fuel => parseFunction script kind keyword ts fuel = .ok (definition, rest)
  | .mk hname hparameters hbrace hbody => hbody.runs.step fun fuel hrun => by
    rw [parseFunction_cons, if_pos hname, hparameters]
    refine (if_pos hbrace).trans (bind_eq_ok.mpr ⟨_, hrun, rfl⟩)

theorem ReadsPipeline.runs {script : Script} {depth : Nat} {afterPipe : Bool} {stop : Nat}
    {ts : List Token} {blocks : List ScriptBlock} {last : Nat} {rest : List Token} :
    ReadsPipeline script depth afterPipe stop ts blocks last rest →
    Eventually fun fuel => parsePipeline script depth afterPipe stop ts fuel = .ok (blocks, last, rest)
  | .finish => .of_succ fun _ => by rw [parsePipeline]
  | .ended hends => .of_succ fun _ => parsePipeline_ended hends
  | .trivia htrivia hends hrest => hrest.runs.step fun fuel hrun => by
    rw [parsePipeline_trivia htrivia hends, hrun]
  | .block hkind hblock hrest => hblock.runs.step_and hrest.runs fun fuel hrun hnext => by
    rw [parsePipeline_brace hkind]
    exact bind_eq_ok.mpr ⟨_, hrun, bind_eq_ok.mpr ⟨_, hnext, rfl⟩⟩
  | .hashtable (t := t) hkind hinner hrest =>
    (hinner.runs t).step_and hrest.runs fun fuel hrun hnext => by
      rw [parsePipeline_atBrace hkind]
      exact bind_eq_ok.mpr ⟨_, hrun, bind_eq_ok.mpr ⟨_, hnext, rfl⟩⟩
  | .token htrivia hbrace hends hrest => hrest.runs.step fun fuel hrun => by
    rw [parsePipeline_token htrivia hbrace hends, hrun]

theorem ReadsHashtable.runs {script : Script} {ts : List Token} {blocks : List ScriptBlock} {stop : Nat}
    {rest : List Token} : ReadsHashtable script ts blocks stop rest → ∀ opener,
    Eventually fun fuel => parseHashtable script opener ts fuel = .ok (blocks, stop, rest)
  | .closed hclose, _ => .of_succ fun _ => parseHashtable_closed hclose
  | .block hkind hblock hrest, opener =>
    hblock.runs.step_and (hrest.runs opener) fun fuel hrun hnext => by
      rw [parseHashtable_block hkind]
      exact bind_eq_ok.mpr ⟨_, hrun, bind_eq_ok.mpr ⟨_, hnext, rfl⟩⟩
  | .nested (t := t) hkind hinner hrest, opener =>
    (hinner.runs t).step_and (hrest.runs opener) fun fuel hrun hnext => by
      rw [parseHashtable_nested hkind]
      exact bind_eq_ok.mpr ⟨_, hrun, bind_eq_ok.mpr ⟨_, hnext, rfl⟩⟩
  | .token hclose hbrace hrest, opener => (hrest.runs opener).step fun fuel hrun => by
    rw [parseHashtable_token hclose hbrace, hrun]

end

/-- A script of whose tokens a tree is derived has that tree. -/
theorem parseTokens_of_readsBlock {script : Script} {root : ScriptBlock}
    (h : ReadsBlock script none script.tokens root []) : parseTokens script = .ok root := by
  obtain ⟨least, hruns⟩ := h.runs
  have hmeasure : (Reading.block none script.tokens).measure < 3 * script.tokens.length + 3 := by
    simp only [Reading.measure, Reading.tokens, Reading.rank]
    omega
  -- the bound of a script gives what every higher bound gives
  have hsettled := settles_of_measure script (3 * script.tokens.length + 3)
    (max least (3 * script.tokens.length + 3)) _ hmeasure
    (Nat.lt_of_lt_of_le hmeasure (Nat.le_max_right _ _))
  have hrun := hsettled.eq.trans (hruns _ (Nat.le_max_left _ _))
  rw [parseTokens, hrun]
  rfl

theorem parse_of_readsBlock {source : String} {cs : List Char} {file : Option String}
    {tokens : List Token} {root : ScriptBlock} (hsource : withoutMark source.toList = cs)
    (htokens : tokenize cs = .ok tokens) (h : ReadsBlock ⟨cs, file, tokens⟩ none tokens root []) :
    parse source file = .ok root := by
  subst hsource
  exact bind_eq_ok.mpr ⟨tokens, htokens, parseTokens_of_readsBlock h⟩

end HelpAudit
