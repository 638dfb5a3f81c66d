import HelpAudit.Proofs.HelpSections
import HelpAudit.Proofs.ParameterFindings
import HelpAudit.Proofs.TreeViews

/-! What the comments right above parameters add to the help of a function. They count only beside a
    comment group that is help, only for parameters that it does not describe, and only where the
    function declares the parameter itself. What the rule about undocumented parameters finds shrinks
    accordingly: a comment above a parameter can settle the finding about that parameter and touches no
    other. -/

namespace HelpAudit

/-! ### The help of a function -/

/-- Whether the parameter has the upper-case name `key` and comments above it. -/
def Parameter.explains (p : Parameter) (key : String) : Bool :=
  Text.upper p.name == key && !p.leadingComments.isEmpty

theorem Parameter.explains_iff {p : Parameter} {key : String} :
    p.explains key = true ↔ Text.upper p.name = key ∧ p.leadingComments ≠ [] := by
  simp [explains]

/-- The text of the comments above a parameter. -/
def Parameter.commentText (p : Parameter) : String :=
  sectionText (p.leadingComments.flatMap commentLines)

section Leading

variable (help : CommentHelp) (p : Parameter) (ps : List Parameter)

theorem addLeading_fields (parameters : List (String × String)) :
    { help.addLeading p with parameters := parameters } = { help with parameters := parameters } := by
  rw [CommentHelp.addLeading]
  split <;> rfl

theorem addLeading_nodup (h : (help.parameters.map (·.1)).Nodup) :
    ((help.addLeading p).parameters.map (·.1)).Nodup := by
  rw [CommentHelp.addLeading]
  split
  · exact h
  · exact nodup_joinEntry _ _ h

/-- The comments above a parameter make an entry for its name, if there is none yet. -/
theorem lookup_addLeading (key : String) : (help.addLeading p).parameters.lookup key =
    (help.parameters.lookup key).or (if p.explains key then some p.commentText else none) := by
  rw [CommentHelp.addLeading]
  by_cases hcomments : p.leadingComments.isEmpty = true
  · simp [hcomments, Parameter.explains]
  by_cases hkey : Text.upper p.name = key
  · subst hkey
    have hexplains : p.explains (Text.upper p.name) = true := by simp [Parameter.explains, hcomments]
    rw [hexplains, if_pos rfl]
    -- whether the entry exists is the same as whether the parameter is documented
    cases hfound : help.parameters.lookup (Text.upper p.name) with
    | none =>
      have hdocuments : help.documents p.name = false := by
        rw [CommentHelp.documents, CommentHelp.parameter?, hfound]
        rfl
      rw [if_neg (by simp [hcomments, hdocuments]), CommentHelp.addParameter, lookup_joinEntry,
        if_pos rfl, hfound]
      rfl
    | some text =>
      have hdocuments : help.documents p.name = true := by
        rw [CommentHelp.documents, CommentHelp.parameter?, hfound]
        rfl
      rw [if_pos (by simp [hdocuments]), hfound]
      rfl
  · have hexplains : p.explains key = false := by simp [Parameter.explains, hkey]
    rw [hexplains]
    split
    · simp
    · simp [CommentHelp.addParameter, lookup_joinEntry, Ne.symm hkey]

theorem foldl_addLeading_fields : ps.foldl CommentHelp.addLeading help =
    { help with parameters := (ps.foldl CommentHelp.addLeading help).parameters } := by
  induction ps generalizing help with
  | nil => rfl
  | cons p ps ih =>
    rw [List.foldl_cons]
    exact (ih _).trans (addLeading_fields help p _)

theorem foldl_addLeading_nodup (h : (help.parameters.map (·.1)).Nodup) :
    ((ps.foldl CommentHelp.addLeading help).parameters.map (·.1)).Nodup := by
  induction ps generalizing help with
  | nil => exact h
  | cons p ps ih => exact ih _ (addLeading_nodup help p h)

/-- After all parameters, a name has the entry it had before or the text above the first parameter that
    explains it. -/
theorem lookup_foldl_addLeading (key : String) :
    (ps.foldl CommentHelp.addLeading help).parameters.lookup key =
      (help.parameters.lookup key).or ((ps.find? (·.explains key)).map Parameter.commentText) := by
  induction ps generalizing help with
  | nil => simp
  | cons p ps ih =>
    rw [List.foldl_cons, ih, lookup_addLeading, Option.or_assoc, List.find?_cons]
    cases p.explains key <;> rfl

end Leading

/-! ### Trees that differ in comments -/

section Viewed

variable (v : View)

theorem scriptBlocksViewed_eq_map (blocks : List ScriptBlock) :
    scriptBlocksViewed v blocks = blocks.map (ScriptBlock.viewed v) := by
  induction blocks with
  | nil => rfl
  | cons block blocks ih => rw [scriptBlocksViewed, ih, List.map_cons]

theorem namedBlocksViewed_eq_map (blocks : List NamedBlock) :
    namedBlocksViewed v blocks = blocks.map (NamedBlock.viewed v) := by
  induction blocks with
  | nil => rfl
  | cons block blocks ih => rw [namedBlocksViewed, ih, List.map_cons]

/-- A node as the view shows it. -/
def Node.viewed : Node → Node
  | .scriptBlock block => .scriptBlock (block.viewed v)
  | .functionDefinition f => .functionDefinition (f.viewed v)
  | .paramBlock block => .paramBlock (block.viewed v)
  | .parameter p => .parameter (p.viewed v)
  | .namedBlock block => .namedBlock (block.viewed v)
  | .pipeline statement =>
    .pipeline ⟨v.extent statement.extent, scriptBlocksViewed v statement.scriptBlocks⟩

theorem Statement.node_viewed (statement : Statement) :
    (statement.viewed v).node = statement.node.viewed v := by
  cases statement with
  | function f => rfl
  | pipeline statement =>
    cases statement
    rfl

theorem Node.children_viewed (node : Node) :
    (node.viewed v).children = node.children.map (Node.viewed v) := by
  cases node with
  | scriptBlock block =>
    obtain ⟨extent, params, blocks⟩ := block
    cases params <;>
      simp [Node.viewed, children, ScriptBlock.viewed, namedBlocksViewed_eq_map]
  | functionDefinition f =>
    obtain ⟨name, kind, extent, parameters, body, comments⟩ := f
    cases parameters <;> simp [Node.viewed, children, FunctionDefinition.viewed]
  | paramBlock block => simp [Node.viewed, children, ParamBlock.viewed]
  | parameter p => rfl
  | namedBlock block =>
    obtain ⟨kind, unnamed, extent, statements⟩ := block
    simp [Node.viewed, children, NamedBlock.viewed, statementsViewed_eq_map, Statement.node_viewed]
  | pipeline statement =>
    obtain ⟨extent, blocks⟩ := statement
    simp [Node.viewed, children, scriptBlocksViewed_eq_map]

/-- The nodes of a viewed tree are the viewed nodes of the tree. -/
theorem Node.preorder_viewed (node : Node) :
    (node.viewed v).preorder = node.preorder.map (Node.viewed v) := by
  induction node using Node.induction_on_children with
  | step node ih =>
    rw [preorder_eq, preorder_eq node, children_viewed, List.map_cons, List.flatMap_map,
      List.map_flatMap, List.flatMap_congr ih]

theorem NamedBlock.viewed_kind (block : NamedBlock) : (block.viewed v).kind = block.kind := by
  cases block
  rfl

omit v in
/-- What a `dynamicparam` block evaluates does not depend on comments that belong to parameters. -/
theorem NamedBlock.dynamicScript_viewed (block : NamedBlock) :
    (block.viewed .full).dynamicScript = block.dynamicScript := by
  obtain ⟨kind, unnamed, extent, statements⟩ := block
  have htexts : (statementsViewed .full statements).map (·.extent.text) =
      statements.map (·.extent.text) := by
    rw [statementsViewed_eq_map, List.map_map]
    refine List.map_congr_left fun statement _ => ?_
    rw [Function.comp_apply, Statement.viewed_extent]
    rfl
  exact congrArg HelpAudit.dynamicScript htexts

namespace ParameterDocumentation

theorem namesDeclaredIn_viewed (f : FunctionDefinition) :
    namesDeclaredIn (f.viewed v) = namesDeclaredIn f := by
  have hnode : Node.functionDefinition (f.viewed v) = (Node.functionDefinition f).viewed v := rfl
  have hinline : ((f.viewed v).parameters.getD []).map (·.name) = (f.parameters.getD []).map (·.name) := by
    obtain ⟨name, kind, extent, parameters, body, comments⟩ := f
    cases parameters <;> simp [FunctionDefinition.viewed, Parameter.viewed]
  rw [namesDeclaredIn, namesDeclaredIn, hinline, hnode, Node.preorder_viewed, List.flatMap_map]
  refine congrArg _ (List.flatMap_congr fun node _ => ?_)
  cases node with
  | paramBlock block => simp [Node.viewed, ParamBlock.viewed, Parameter.viewed]
  | _ => rfl

theorem dynamicScriptsIn_viewed (f : FunctionDefinition) :
    dynamicScriptsIn (f.viewed .full) = dynamicScriptsIn f := by
  have hnode : Node.functionDefinition (f.viewed .full) = (Node.functionDefinition f).viewed .full := rfl
  rw [dynamicScriptsIn, dynamicScriptsIn, hnode, Node.preorder_viewed, List.flatMap_map]
  refine List.flatMap_congr fun node _ => ?_
  cases node with
  | namedBlock block => simp only [Node.viewed, NamedBlock.viewed_kind, NamedBlock.dynamicScript_viewed]
  | _ => rfl

end ParameterDocumentation

end Viewed

/-! ### A comment above a parameter -/

/-- The function after comments were put above a parameter called `name`. The parameter stands after the
    function's name, in the parameter block of its body, or in a block further inside, where all comments
    that belong to functions and parameters may change. -/
inductive GivesComment (name : String) (f : FunctionDefinition) : FunctionDefinition → Prop where
  | inline {before p after comments} : f.parameters = some (before ++ p :: after) → p.name = name →
    comments ≠ [] → GivesComment name f
      { f with parameters := some (before ++ { p with leadingComments := comments } :: after) }
  | declared {block before p after comments} : f.body.paramBlock = some block →
    block.parameters = before ++ p :: after → p.name = name → comments ≠ [] → GivesComment name f
      { f with body := { f.body with paramBlock := some { block with
        parameters := before ++ { p with leadingComments := comments } :: after } } }
  | nested {blocks} : namedBlocksViewed .full blocks = namedBlocksViewed .full f.body.namedBlocks →
    GivesComment name f { f with body := { f.body with namedBlocks := blocks } }

namespace GivesComment

variable {name : String} {f g : FunctionDefinition}

theorem viewed (h : GivesComment name f g) : g.viewed .full = f.viewed .full := by
  obtain ⟨fname, kind, extent, parameters, ⟨bodyExtent, params, blocks⟩, comments⟩ := f
  cases h with
  | inline hparameters _ _ =>
    simp [FunctionDefinition.viewed, show parameters = _ from hparameters, Parameter.viewed]
  | declared hblock hparameters _ _ =>
    simp [FunctionDefinition.viewed, ScriptBlock.viewed, show params = _ from hblock, ParamBlock.viewed,
      hparameters, Parameter.viewed]
  | nested hblocks =>
    simp [FunctionDefinition.viewed, ScriptBlock.viewed, hblocks]

theorem helpComments (h : GivesComment name f g) : g.helpComments = f.helpComments := by
  cases h <;> rfl

theorem finding (h : GivesComment name f g) (file : Option String) :
    ParameterDocumentation.finding g file = ParameterDocumentation.finding f file := by
  cases h <;> rfl

/-- The parameters that the function declares itself are the same but for the comments above one. -/
theorem ownParameters (h : GivesComment name f g) : g.ownParameters = f.ownParameters ∨
    ∃ before p after comments, p.name = name ∧ comments ≠ [] ∧ f.ownParameters = before ++ p :: after ∧
      g.ownParameters = before ++ { p with leadingComments := comments } :: after := by
  cases h with
  | @inline before p after comments hparameters hname hcomments =>
    refine .inr ⟨before, p, after ++ (f.body.paramBlock.map (·.parameters)).getD [], comments, hname,
      hcomments, ?_, ?_⟩
    · rw [FunctionDefinition.ownParameters, hparameters, Option.getD_some, List.append_assoc]
      rfl
    · rw [FunctionDefinition.ownParameters, Option.getD_some, List.append_assoc]
      rfl
  | @declared block before p after comments hblock hparameters hname hcomments =>
    refine .inr ⟨f.parameters.getD [] ++ before, p, after, comments, hname, hcomments, ?_, ?_⟩
    · rw [FunctionDefinition.ownParameters, hblock, Option.map_some, Option.getD_some, hparameters,
        List.append_assoc]
    · rw [FunctionDefinition.ownParameters, Option.map_some, Option.getD_some, List.append_assoc]
  | nested => exact .inl rfl

/-- What a parameter explained is still explained. -/
theorem explains_of (h : GivesComment name f g) {key : String}
    (hexplains : ∃ p ∈ f.ownParameters, p.explains key = true) :
    ∃ p ∈ g.ownParameters, p.explains key = true := by
  rcases h.ownParameters with hsame | ⟨before, p, after, comments, rfl, hcomments, hf, hg⟩
  · rwa [hsame]
  obtain ⟨q, hq, hkey⟩ := hexplains
  rw [hf, List.mem_append, List.mem_cons] at hq
  rw [hg]
  rcases hq with hq | rfl | hq
  · exact ⟨q, List.mem_append_left _ hq, hkey⟩
  · exact ⟨{ q with leadingComments := comments }, by simp,
      Parameter.explains_iff.mpr ⟨(Parameter.explains_iff.mp hkey).1, hcomments⟩⟩
  · exact ⟨q, List.mem_append_right _ (List.mem_cons_of_mem _ hq), hkey⟩

/-- Nothing but `name` is explained that was not. -/
theorem explains_or (h : GivesComment name f g) {key : String}
    (hexplains : ∃ p ∈ g.ownParameters, p.explains key = true) :
    (∃ p ∈ f.ownParameters, p.explains key = true) ∨ key = Text.upper name := by
  rcases h.ownParameters with hsame | ⟨before, p, after, comments, rfl, hcomments, hf, hg⟩
  · exact .inl (hsame ▸ hexplains)
  obtain ⟨q, hq, hkey⟩ := hexplains
  rw [hg, List.mem_append, List.mem_cons] at hq
  rw [hf]
  rcases hq with hq | rfl | hq
  · exact .inl ⟨q, List.mem_append_left _ hq, hkey⟩
  · exact .inr (Parameter.explains_iff.mp hkey).1.symm
  · exact .inl ⟨q, List.mem_append_right _ (List.mem_cons_of_mem _ hq), hkey⟩

end GivesComment

/-! ### Documented names and findings -/

/-- A name is documented by the first group that is help, or beside one by comments above a
    parameter. -/
theorem documents_help_iff (f : FunctionDefinition) (name : String) :
    f.help.documents name = true ↔ ∃ help,
      f.helpComments.findSome? (fun group => CommentHelp.ofComments? group.comments) = some help ∧
      (help.documents name = true ∨ ∃ p ∈ f.ownParameters, p.explains (Text.upper name) = true) := by
  rw [FunctionDefinition.help]
  cases hfirst : f.helpComments.findSome? fun group => CommentHelp.ofComments? group.comments with
  | none =>
    constructor
    · intro h
      cases h
    · rintro ⟨help, hnone, -⟩
      cases hnone
  | some help =>
    simp only [Option.some.injEq, exists_eq_left', CommentHelp.documents, CommentHelp.parameter?,
      lookup_foldl_addLeading, Option.isSome_or, Bool.or_eq_true, Option.isSome_map, List.find?_isSome]

namespace ParameterDocumentation

variable {name : String} {f g : FunctionDefinition}

/-- What is evaluated and which names are declared do not depend on the comments. -/
theorem checkFunction_run_of_givesComment (h : GivesComment name f g) (evaluator : Evaluator)
    (file : Option String) (previous : List String) : ∃ names,
      ((checkFunction evaluator file f).run previous).1 =
        (undocumented names f.help).mapM (finding f file) ∧
      ((checkFunction evaluator file g).run previous).1 =
        (undocumented names g.help).mapM (finding f file) := by
  have hdeclared : namesDeclaredIn g = namesDeclaredIn f := by
    rw [← namesDeclaredIn_viewed .full g, h.viewed, namesDeclaredIn_viewed]
  have hscripts : dynamicScriptsIn g = dynamicScriptsIn f := by
    rw [← dynamicScriptsIn_viewed g, h.viewed, dynamicScriptsIn_viewed]
  rw [checkFunction_run, checkFunction_run, namesAfter, namesAfter, hdeclared, hscripts, h.finding]
  exact ⟨_, rfl, rfl⟩

theorem undocumented_sublist {names : List String} {help help' : CommentHelp}
    (h : ∀ name, help.documents name = true → help'.documents name = true) :
    (undocumented names help').Sublist (undocumented names help) := by
  refine List.monotone_filter_right names fun name => ?_
  rw [Bool.not_eq_true', Bool.not_eq_true']
  intro hname
  by_contra hdocuments
  rw [h name (by simpa using hdocuments)] at hname
  cases hname

/-- What is documented stays so, and beside it only `name` becomes so. -/
theorem documents_of_givesComment (h : GivesComment name f g) (other : String) :
    (f.help.documents other = true → g.help.documents other = true) ∧
    (g.help.documents other = true →
      f.help.documents other = true ∨ Text.upper other = Text.upper name) := by
  rw [documents_help_iff, documents_help_iff, h.helpComments]
  constructor
  · rintro ⟨help, hfirst, hdocuments⟩
    exact ⟨help, hfirst, hdocuments.imp_right h.explains_of⟩
  · rintro ⟨help, hfirst, hhelp | hexplains⟩
    · exact .inl ⟨help, hfirst, .inl hhelp⟩
    · exact (h.explains_or hexplains).imp_left fun hexplained => ⟨help, hfirst, .inr hexplained⟩

/-- A comment above a parameter removes at most the finding about that name. -/
theorem findings_of_givesComment (h : GivesComment name f g) (evaluator : Evaluator)
    (file : Option String) (previous : List String) :
    (∀ found, ((checkFunction evaluator file f).run previous).1 = .ok found →
      ∃ fewer, ((checkFunction evaluator file g).run previous).1 = .ok fewer ∧ fewer.Sublist found ∧
        ∀ d ∈ found, d ∉ fewer → d.subject.map Text.upper = some (Text.upper name)) ∧
    ∀ failure, ((checkFunction evaluator file f).run previous).1 = .error failure →
      ∀ fewer, ((checkFunction evaluator file g).run previous).1 = .ok fewer → fewer = [] := by
  obtain ⟨names, hf, hg⟩ := checkFunction_run_of_givesComment h evaluator file previous
  have hsublist : (undocumented names g.help).Sublist (undocumented names f.help) :=
    undocumented_sublist fun other => (documents_of_givesComment h other).1
  rw [hf, hg]
  refine ⟨fun found hfound => ?_, fun failure hfailed fewer hfewer => ?_⟩
  · refine ⟨_, mapM_finding_of_sublist hsublist hfound, ?_, ?_⟩
    · rw [mapM_finding_eq_ok hfound]
      exact hsublist.map _
    · rw [mapM_finding_eq_ok hfound]
      intro d hd hnot
      obtain ⟨other, hother, rfl⟩ := List.mem_map.mp hd
      obtain ⟨hname, hundocumented⟩ := List.mem_filter.mp hother
      have hdocumented : g.help.documents other = true := by
        by_contra hdocuments
        exact hnot (List.mem_map_of_mem (List.mem_filter.mpr ⟨hname, by simpa using hdocuments⟩))
      -- the name was not documented before, so the new comments document it
      rcases (documents_of_givesComment h other).2 hdocumented with hbefore | hform
      · rw [hbefore] at hundocumented
        cases hundocumented
      · exact congrArg some hform
  · -- no finding about the function can be made, so there was none to make
    rw [mapM_finding] at hfailed hfewer
    split at hfailed
    · cases hfailed
    · rename_i hover
      split at hfewer
      · rename_i hdue
        have hnil := hdue.resolve_right fun hfits => hover (.inr hfits)
        rw [hnil] at hfewer
        cases hfewer
        rfl
      · cases hfewer

end ParameterDocumentation

/-- The first group that is help, found. -/
theorem help_of_first {f : FunctionDefinition} {before after : List CommentGroup} {group : CommentGroup}
    {help : CommentHelp} (hgroups : f.helpComments = before ++ group :: after)
    (hbefore : ∀ earlier ∈ before, CommentHelp.ofComments? earlier.comments = none)
    (hgroup : CommentHelp.ofComments? group.comments = some help) :
    f.help = f.ownParameters.foldl CommentHelp.addLeading help := by
  have hnone : before.findSome? (fun group => CommentHelp.ofComments? group.comments) = none :=
    List.findSome?_eq_none_iff.mpr hbefore
  rw [FunctionDefinition.help, hgroups, List.findSome?_append, hnone, Option.none_or,
    List.findSome?_cons, hgroup]

/-- Without a group that is help, a function has no help at all. Otherwise its help is the first such
    group, and the names it does not describe are described by the comments above the first parameter of
    that name which has any. Comments above a parameter remove at most the finding about its name, and
    where the findings could not be made there are none behind them. -/
theorem help_with_parameter_comments (f : FunctionDefinition) :
    ((∀ group ∈ f.helpComments, CommentHelp.ofComments? group.comments = none) → f.help = {}) ∧
    (∀ before group after help, f.helpComments = before ++ group :: after →
      (∀ earlier ∈ before, CommentHelp.ofComments? earlier.comments = none) →
      CommentHelp.ofComments? group.comments = some help →
        f.help = { help with parameters := f.help.parameters } ∧
        (f.help.parameters.map (·.1)).Nodup ∧
        ∀ key, f.help.parameters.lookup key = (help.parameters.lookup key).or
          ((f.ownParameters.find? (·.explains key)).map Parameter.commentText)) ∧
    (∀ blocks, FunctionDefinition.help { f with body := { f.body with namedBlocks := blocks } } = f.help) ∧
    ∀ name g, GivesComment name f g → ∀ evaluator file previous,
      (∀ found, ((ParameterDocumentation.checkFunction evaluator file f).run previous).1 = .ok found →
        ∃ fewer, ((ParameterDocumentation.checkFunction evaluator file g).run previous).1 = .ok fewer ∧
          fewer.Sublist found ∧
          ∀ d ∈ found, d ∉ fewer → d.subject.map Text.upper = some (Text.upper name)) ∧
      ∀ failure, ((ParameterDocumentation.checkFunction evaluator file f).run previous).1 = .error failure →
        ∀ fewer, ((ParameterDocumentation.checkFunction evaluator file g).run previous).1 = .ok fewer →
          fewer = [] := by
  refine ⟨fun hnone => ?_, fun before group after help hgroups hbefore hgroup => ?_, fun _ => rfl,
    fun name g h => ParameterDocumentation.findings_of_givesComment h⟩
  · rw [FunctionDefinition.help, List.findSome?_eq_none_iff.mpr hnone]
  · rw [help_of_first hgroups hbefore hgroup]
    exact ⟨foldl_addLeading_fields help _, foldl_addLeading_nodup help _
      (CommentHelp.records_of_ofLines? hgroup).keys_nodup, lookup_foldl_addLeading help _⟩

/-- A comment above `A` settles the finding about it and leaves the one about `b`. -/
theorem help_with_parameter_comments_removes : ∃ f g found fewer, GivesComment "a" f g ∧
    ((ParameterDocumentation.checkFunction .disabled none f).run []).1 = .ok found ∧
    found.map (·.subject) = [some "b", some "A"] ∧
    ((ParameterDocumentation.checkFunction .disabled none g).run []).1 = .ok fewer ∧
    fewer.map (·.subject) = [some "b"] ∧
    f.help.synopsis = some "s" ∧ g.help = { f.help with parameters := [("A", "x")] } ∧
    fewer.Sublist found ∧
    ∀ d ∈ found, d ∉ fewer → d.subject.map Text.upper = some (Text.upper "a") := by
  let extent : Extent := ⟨none, 1, 1, 1, 1, 0, 0, ""⟩
  let parameter (name : String) : Parameter := ⟨name, extent, [], none, []⟩
  -- the name has two spellings, and the comments stand above the second
  let f : FunctionDefinition := ⟨"f", .function, extent, some [parameter "b", parameter "A"],
    ⟨extent, some ⟨extent, [], [parameter "a"]⟩, []⟩, [⟨["# .SYNOPSIS", "# s"], extent⟩]⟩
  have hblock : f.body.paramBlock = some ⟨extent, [], [] ++ parameter "a" :: []⟩ := rfl
  have hgiven := GivesComment.declared hblock rfl rfl (List.cons_ne_nil "# x" [])
  have hfound : ((ParameterDocumentation.checkFunction .disabled none f).run []).1 =
      .ok (["b", "A"].map (ParameterDocumentation.noted f none)) := by decide +kernel
  obtain ⟨-, -, -, hfindings⟩ := help_with_parameter_comments f
  obtain ⟨fewer, hfewer, hsublist, hremoved⟩ := (hfindings _ _ hgiven .disabled none []).1 _ hfound
  refine ⟨f, _, _, fewer, hgiven, hfound, rfl, hfewer, ?_, by decide +kernel, by decide +kernel, hsublist,
    hremoved⟩
  have hone : ((ParameterDocumentation.checkFunction .disabled none
      { f with body := { f.body with
        paramBlock := some ⟨extent, [], [{ parameter "a" with leadingComments := ["# x"] }]⟩ } }).run []).1 =
      .ok (["b"].map (ParameterDocumentation.noted f none)) := by decide +kernel
  obtain rfl := Except.ok.inj (hone.symm.trans hfewer)
  rfl

end HelpAudit
