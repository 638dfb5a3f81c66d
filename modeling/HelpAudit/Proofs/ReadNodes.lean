import HelpAudit.Proofs.Derivation
import HelpAudit.Proofs.NodeOrder

/-! Every node below the root of a parsed tree was read somewhere in the script. A property of nodes can
    so be proved for each rule of the grammar alone, without a further induction over the tree. -/

namespace HelpAudit

/-- The named block was read from tokens of the script. -/
inductive NamedBlock.IsRead (script : Script) : NamedBlock → Prop where
  | unnamed {closing ts statements rest} :
    ts <:+ script.tokens →
    ReadsStatements script closing ts statements rest →
    NamedBlock.IsRead script ⟨.endBlock, true, bodyExtent script ts statements, statements⟩
  | named {t after kind opener inner statements close behind} :
    t :: after <:+ script.tokens →
    t.kind = .keyword (.block kind) →
    skipTrivia after = opener :: inner →
    opener.kind = .opening .brace →
    ReadsStatements script true inner statements (close :: behind) →
    close.kind = .closing .brace →
    NamedBlock.IsRead script ⟨kind, false, script.extent t.start close.stop, statements⟩

/-- The node was read from tokens of the script, a script block from those between two braces. -/
def Node.IsRead (script : Script) : Node → Prop
  | .scriptBlock block => ∃ opener ts rest, opener :: ts <:+ script.tokens ∧
      opener.kind = .opening .brace ∧ ReadsBlock script (some opener) ts block rest
  | .functionDefinition definition => ∃ kind keyword ts rest, keyword :: ts <:+ script.tokens ∧
      keyword.kind = .keyword (.declare kind) ∧ ReadsFunction script kind keyword ts definition rest
  | .paramBlock block => ∃ ts after, ts <:+ script.tokens ∧
      HelpAudit.paramBlock script ts = .ok (some block, after)
  | .parameter _ => True
  | .namedBlock block => block.IsRead script
  | .pipeline statement => ∃ t ts blocks stop rest, t :: ts <:+ script.tokens ∧
      t.kind.isSeparator = false ∧ t.kind ≠ .closing .brace ∧
      ReadsPipeline script 0 false 0 (t :: ts) blocks stop rest ∧
      statement = ⟨script.extent t.start stop, blocks⟩

/-- The nodes and all nodes below them were read. -/
def AllRead (script : Script) (nodes : List Node) : Prop :=
  ∀ node ∈ nodes, ∀ n ∈ node.preorder, n.IsRead script

section AllRead

variable {script : Script} {node : Node} {nodes others : List Node}

theorem AllRead.nil : AllRead script [] := fun _ h => absurd h List.not_mem_nil

theorem AllRead.append (h : AllRead script nodes) (h' : AllRead script others) :
    AllRead script (nodes ++ others) := by
  intro node hn
  rcases List.mem_append.mp hn with hn | hn
  · exact h node hn
  · exact h' node hn

theorem AllRead.cons (h : node.IsRead script) (hbelow : AllRead script node.children)
    (hnodes : AllRead script nodes) : AllRead script (node :: nodes) := by
  intro n hn
  rcases List.mem_cons.mp hn with rfl | hn
  · exact Node.forall_mem_preorder.mpr ⟨h, hbelow⟩
  · exact hnodes n hn

theorem allRead_parameters (script : Script) (parameters : List Parameter) :
    AllRead script (parameters.map .parameter) := by
  induction parameters with
  | nil => exact .nil
  | cons p ps ih => exact .cons trivial .nil ih

end AllRead

theorem paramBlock_allRead {script : Script} {ts after : List Token} {params : Option ParamBlock}
    (hts : ts <:+ script.tokens) (h : paramBlock script ts = .ok (params, after)) :
    AllRead script (params.map .paramBlock).toList := by
  cases params with
  | none => exact .nil
  | some block => exact .cons ⟨ts, after, hts, h⟩ (allRead_parameters script _) .nil

mutual

theorem ReadsBlock.allRead {script : Script} {opener : Option Token} {ts : List Token}
    {block : ScriptBlock} {rest : List Token} : ReadsBlock script opener ts block rest →
    ts <:+ script.tokens → AllRead script (Node.scriptBlock block).children
  | .whole hparams hbody, hts => (paramBlock_allRead hts hparams).append
    (hbody.allRead (((skipSeparators_suffix _).trans (paramBlock_suffix hparams)).trans hts))
  | .braced hparams hbody _, hts => (paramBlock_allRead hts hparams).append
    (hbody.allRead (((skipSeparators_suffix _).trans (paramBlock_suffix hparams)).trans hts))

theorem ReadsBody.allRead {script : Script} {closing : Bool} {ts : List Token}
    {blocks : List NamedBlock} {rest : List Token} : ReadsBody script closing ts blocks rest →
    ts <:+ script.tokens → AllRead script (blocks.map .namedBlock)
  | .named _ hnamed, hts => hnamed.allRead hts
  | .unnamed _ hstatements, hts =>
    .cons (NamedBlock.IsRead.unnamed hts hstatements) (hstatements.allRead hts) .nil

theorem ReadsNamed.allRead {script : Script} {closing : Bool} {ts : List Token}
    {blocks : List NamedBlock} {rest : List Token} : ReadsNamed script closing ts blocks rest →
    ts <:+ script.tokens → AllRead script (blocks.map .namedBlock)
  | .finish _, _ => .nil
  | .closed _ _, _ => .nil
  | .block hskip hkind hopener hbrace hstatements hclose hblocks, hts => by
    have hkeyword := (suffix_of_skipSeparators hskip).trans hts
    have hinner := suffix_of_cons_suffix ((hopener ▸ skipTrivia_suffix _).trans
      (suffix_of_cons_suffix hkeyword))
    have hbehind := suffix_of_cons_suffix (hstatements.suffix.trans hinner)
    exact .cons (NamedBlock.IsRead.named hkeyword hkind hopener hbrace hstatements hclose)
      (hstatements.allRead hinner) (hblocks.allRead hbehind)

theorem ReadsStatements.allRead {script : Script} {closing : Bool} {ts : List Token}
    {statements : List Statement} {rest : List Token} :
    ReadsStatements script closing ts statements rest → ts <:+ script.tokens →
    AllRead script (statements.map Statement.node)
  | .finish _, _ => .nil
  | .closed _ _, _ => .nil
  | .function hskip hkind hfunction hothers, hts => by
    have hkeyword := (suffix_of_skipSeparators hskip).trans hts
    have hafter := suffix_of_cons_suffix hkeyword
    exact .cons ⟨_, _, _, _, hkeyword, hkind, hfunction⟩ (hfunction.allRead hafter)
      (hothers.allRead (hfunction.suffix.trans hafter))
  | .pipeline hskip hclose _ hpipeline hothers, hts => by
    have hfirst := (suffix_of_skipSeparators hskip).trans hts
    have hcode := isSeparator_of_skipSeparators hskip
    exact .cons ⟨_, _, _, _, _, hfirst, hcode, hclose, hpipeline, rfl⟩ (hpipeline.allRead hfirst)
      (hothers.allRead (hpipeline.suffix.trans hfirst))

theorem ReadsFunction.allRead {script : Script} {kind : FunctionKind} {keyword : Token}
    {ts : List Token} {definition : FunctionDefinition} {rest : List Token} :
    ReadsFunction script kind keyword ts definition rest → ts <:+ script.tokens →
    AllRead script (Node.functionDefinition definition).children
  | .mk _ hparameters hbrace hbody, hts => by
    have hopener := (inlineParameters_suffix hparameters).trans (suffix_of_cons_suffix hts)
    exact (allRead_parameters script _).append (.cons ⟨_, _, _, hopener, hbrace, hbody⟩
      (hbody.allRead (suffix_of_cons_suffix hopener)) .nil)

theorem ReadsPipeline.allRead {script : Script} {depth : Nat} {afterPipe : Bool} {stop : Nat}
    {ts : List Token} {blocks : List ScriptBlock} {last : Nat} {rest : List Token} :
    ReadsPipeline script depth afterPipe stop ts blocks last rest → ts <:+ script.tokens →
    AllRead script (blocks.map .scriptBlock)
  | .finish, _ => .nil
  | .ended _, _ => .nil
  | .trivia _ _ hrest, hts => hrest.allRead (suffix_of_cons_suffix hts)
  | .block hkind hblock hrest, hts => by
    have htail := suffix_of_cons_suffix hts
    exact .cons ⟨_, _, _, hts, hkind, hblock⟩ (hblock.allRead htail)
      (hrest.allRead (hblock.suffix.trans htail))
  | .hashtable _ hinner hrest, hts => by
    have htail := suffix_of_cons_suffix hts
    rw [List.map_append]
    exact (hinner.allRead htail).append (hrest.allRead (hinner.suffix.trans htail))
  | .token _ _ _ hrest, hts => hrest.allRead (suffix_of_cons_suffix hts)

theorem ReadsHashtable.allRead {script : Script} {ts : List Token} {blocks : List ScriptBlock}
    {stop : Nat} {rest : List Token} : ReadsHashtable script ts blocks stop rest →
    ts <:+ script.tokens → AllRead script (blocks.map .scriptBlock)
  | .closed _, _ => .nil
  | .block hkind hblock hrest, hts => by
    have htail := suffix_of_cons_suffix hts
    exact .cons ⟨_, _, _, hts, hkind, hblock⟩ (hblock.allRead htail)
      (hrest.allRead (hblock.suffix.trans htail))
  | .nested _ hinner hrest, hts => by
    have htail := suffix_of_cons_suffix hts
    rw [List.map_append]
    exact (hinner.allRead htail).append (hrest.allRead (hinner.suffix.trans htail))
  | .token _ _ hrest, hts => hrest.allRead (suffix_of_cons_suffix hts)

end

end HelpAudit
