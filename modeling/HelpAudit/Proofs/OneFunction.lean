import HelpAudit.Proofs.Derivation
import HelpAudit.Proofs.ParameterFindings

/-! Scripts that are one function whose body has a parameter block and nothing else but newlines and
    comments. The parser accepts every such script, whatever the parameters are; the tree has the one
    function with the parameters of the list and the comments around it. -/

namespace HelpAudit

open ParameterDocumentation

/-- The tokens of a script that is one function, from the trivia above it to its last brace. -/
structure OneFunction (script : Script) where
  above : List Token
  keyword : Token
  name : Token
  opener : Token
  leading : List Token
  param : Token
  paren : Token
  inner : List Token
  close : Token
  trailing : List Token
  brace : Token
  tokens_eq : script.tokens = above ++ keyword :: name :: opener ::
    (leading ++ param :: paren :: (inner ++ close :: (trailing ++ [brace])))
  above_trivia : ∀ t ∈ above, t.kind.isTrivia = true
  keyword_kind : keyword.kind = .keyword (.declare .function)
  name_kind : name.kind.isNameLike = true
  opener_kind : opener.kind = .opening .brace
  leading_trivia : ∀ t ∈ leading, t.kind.isTrivia = true
  param_kind : param.kind = .keyword .param
  paren_kind : paren.kind = .opening .paren
  trailing_trivia : ∀ t ∈ trailing, t.kind.isTrivia = true
  brace_kind : brace.kind = .closing .brace

/-! ### Skipping -/

theorem skipTrivia_append {front : List Token} (h : ∀ t ∈ front, t.kind.isTrivia = true)
    (ts : List Token) : skipTrivia (front ++ ts) = skipTrivia ts := List.dropWhile_append_of_pos h

theorem skipSeparators_append {front : List Token} (h : ∀ t ∈ front, t.kind.isTrivia = true)
    (ts : List Token) : skipSeparators (front ++ ts) = skipSeparators ts :=
  List.dropWhile_append_of_pos fun t ht => isSeparator_of_isTrivia (h t ht)

/-! ### Parameter blocks -/

section ParamBlock

variable (script : Script) {front : List Token} (hfront : ∀ t ∈ front, t.kind.isTrivia = true)

include hfront

theorem attributeGroups_code {t : Token} (ts : List Token) (h : t.kind.isTrivia = false)
    (hbracket : t.kind ≠ .opening .bracket) :
    attributeGroups script none (front ++ t :: ts) = .ok ([], t :: ts) := by
  rw [attributeGroups_skipTrivia, skipTrivia_append hfront, skipTrivia_cons_of_code ts h,
    attributeGroups, h, if_neg Bool.false_ne_true, if_neg hbracket]

/-- Code other than a bracket or the keyword starts no parameter block. -/
theorem paramBlock_of_code {t : Token} (ts : List Token) (h : t.kind.isTrivia = false)
    (hbracket : t.kind ≠ .opening .bracket) (hparam : t.kind ≠ .keyword .param) :
    paramBlock script (front ++ t :: ts) = .ok (none, front ++ t :: ts) := by
  rw [paramBlock, attributeGroups_code script hfront ts h hbracket]
  simp [bind, Except.bind, pure, Except.pure, hparam]

/-- A function's keyword starts no parameter block. -/
theorem paramBlock_absent {t : Token} {kind : FunctionKind} (ts : List Token)
    (h : t.kind = .keyword (.declare kind)) :
    paramBlock script (front ++ t :: ts) = .ok (none, front ++ t :: ts) :=
  paramBlock_of_code script hfront ts (by rw [h]; rfl) (by simp [h]) (by simp [h])

theorem paramBlock_present {param paren : Token} {inner : List Token} {list : ParameterList}
    (hparam : param.kind = .keyword .param) (hparen : paren.kind = .opening .paren)
    (hlist : parameterList script paren {} 0 inner = .ok list) :
    ∃ extent, paramBlock script (front ++ param :: paren :: inner) =
      .ok (some ⟨extent, [], list.parameters⟩, list.rest) := by
  have hgroups := attributeGroups_code script hfront (paren :: inner) (by rw [hparam]; rfl)
    (by rw [hparam]; exact nofun)
  have hskip := skipTrivia_cons_of_code inner (t := paren) (by rw [hparen]; rfl)
  rw [paramBlock, hgroups]
  simp [bind, Except.bind, pure, Except.pure, hparam, hskip, hparen, hlist]

end ParamBlock

/-! ### The function and the script -/

theorem parseStatements_closed (script : Script) {brace : Token} (h : brace.kind = .closing .brace)
    (rest : List Token) (fuel : Nat) :
    parseStatements script true (brace :: rest) (fuel + 1) = .ok ([], brace :: rest) := by
  rw [parseStatements, skipSeparators_cons_of_code rest (by rw [h]; rfl)]
  simp [h]

theorem inlineParameters_absent (script : Script) {opener : Token} (h : opener.kind = .opening .brace)
    (inner : List Token) : inlineParameters script (opener :: inner) = .ok (none, opener :: inner) := by
  rw [inlineParameters, skipTrivia_cons_of_code inner (by rw [h]; rfl)]
  simp [h, pure, Except.pure]

namespace OneFunction

variable {script : Script} (o : OneFunction script)

/-- The tokens between the braces. -/
def body : List Token := o.leading ++ o.param :: o.paren :: (o.inner ++ o.close :: o.trailing)

/-- The tokens behind the function's keyword. -/
def afterKeyword : List Token := o.name :: o.opener :: (o.body ++ [o.brace])

theorem tokens_split : script.tokens = o.above ++ o.keyword :: o.afterKeyword := by
  rw [o.tokens_eq]
  simp [afterKeyword, body]

/-- The function, with its parsed body. -/
def definition (body : ScriptBlock) : FunctionDefinition :=
  functionOf script .function o.keyword o.name o.afterKeyword none o.opener (o.body ++ [o.brace]) body []

/-- The list of parameters is read up to the parenthesis that closes it. -/
structure HasList (list : ParameterList) : Prop where
  read : parameterList script o.paren {} 0 (o.inner ++ o.close :: (o.trailing ++ [o.brace])) = .ok list
  rest : list.rest = o.trailing ++ [o.brace]

/-- The body of a function that has a parameter block and no statements. -/
structure IsEmptyBody (parameters : List Parameter) (body : ScriptBlock) : Prop where
  params : ∃ extent, body.paramBlock = some ⟨extent, [], parameters⟩
  blocks : ∃ extent, body.namedBlocks = [⟨.endBlock, true, extent, []⟩]

variable {o} {list : ParameterList} (hlist : o.HasList list)

include hlist

theorem HasList.parse_body (fuel : Nat) : ∃ body, IsEmptyBody list.parameters body ∧
    parseScriptBlock script (some o.opener) (o.body ++ [o.brace]) (fuel + 2) = .ok (body, []) := by
  have hbody : o.body ++ [o.brace] =
      o.leading ++ o.param :: o.paren :: (o.inner ++ o.close :: (o.trailing ++ [o.brace])) := by
    simp [body]
  obtain ⟨extent, hparams⟩ := paramBlock_present script o.leading_trivia o.param_kind o.paren_kind
    hlist.read
  have hskip : skipSeparators list.rest = [o.brace] := by
    rw [hlist.rest, skipSeparators_append o.trailing_trivia,
      skipSeparators_cons_of_code [] (by rw [o.brace_kind]; rfl)]
  have hkind : namedBlockKind? [o.brace] = none := by simp [namedBlockKind?, o.brace_kind]
  have hstatements := parseStatements_closed script o.brace_kind [] fuel
  rw [hbody, parseScriptBlock, hparams]
  simp only [bind, Except.bind, hskip, hkind, Option.isSome_some, Option.isSome_none,
    Bool.false_eq_true, if_false, hstatements, pure, Except.pure, o.brace_kind, if_true]
  exact ⟨_, ⟨⟨_, rfl⟩, ⟨_, rfl⟩⟩, rfl⟩

theorem HasList.parse_function (fuel : Nat) : ∃ body, IsEmptyBody list.parameters body ∧
    parseFunction script .function o.keyword o.afterKeyword (fuel + 3) = .ok (o.definition body, []) := by
  obtain ⟨body, hempty, hbody⟩ := hlist.parse_body fuel
  refine ⟨body, hempty, ?_⟩
  rw [afterKeyword, parseFunction_cons, if_pos o.name_kind, inlineParameters_absent script o.opener_kind]
  simp [bind, Except.bind, parseFunctionBody, o.opener_kind, hbody, pure, Except.pure, definition,
    afterKeyword]

theorem HasList.parse_statements (fuel : Nat) : ∃ body, IsEmptyBody list.parameters body ∧
    parseStatements script false (o.keyword :: o.afterKeyword) (fuel + 4) =
      .ok ([.function (o.definition body)], []) := by
  obtain ⟨body, hempty, hfunction⟩ := hlist.parse_function fuel
  have hend : parseStatements script false [] (fuel + 3) = .ok ([], []) := by rw [parseStatements]; rfl
  refine ⟨body, hempty, ?_⟩
  rw [parseStatements, skipSeparators_cons_of_code _ (by rw [o.keyword_kind]; rfl)]
  simp only [o.keyword_kind, bind, Except.bind, hfunction, hend, pure, Except.pure]

/-- The script is parsed to a tree with the one function. -/
theorem HasList.parseTokens : ∃ body root, IsEmptyBody list.parameters body ∧
    HelpAudit.parseTokens script = .ok root ∧ root.paramBlock = none ∧
    ∃ extent, root.namedBlocks = [⟨.endBlock, true, extent, [.function (o.definition body)]⟩] := by
  obtain ⟨fuel, hfuel⟩ : ∃ fuel, 3 * script.tokens.length + 3 = fuel + 5 := by
    refine ⟨3 * script.tokens.length - 2, ?_⟩
    have hlen := congrArg List.length o.tokens_split
    rw [List.length_append, List.length_cons] at hlen
    omega
  obtain ⟨body, hempty, hstatements⟩ := hlist.parse_statements fuel
  have hparams := paramBlock_absent script o.above_trivia o.afterKeyword o.keyword_kind
  have hskip : skipSeparators (o.above ++ o.keyword :: o.afterKeyword) =
      o.keyword :: o.afterKeyword := by
    rw [skipSeparators_append o.above_trivia,
      skipSeparators_cons_of_code _ (by rw [o.keyword_kind]; rfl)]
  have hkind : namedBlockKind? (o.keyword :: o.afterKeyword) = none := by
    simp [namedBlockKind?, o.keyword_kind]
  rw [HelpAudit.parseTokens, hfuel, o.tokens_split, parseScriptBlock, hparams]
  simp only [bind, Except.bind, hskip, hkind, Option.isSome_none, Bool.false_eq_true, if_false,
    hstatements, pure, Except.pure]
  exact ⟨body, _, hempty, rfl, rfl, _, rfl⟩

omit hlist in
theorem definition_helpComments (body : ScriptBlock) :
    (o.definition body).helpComments = helpComments script o.above o.body := by
  have hbefore : script.before (o.keyword :: o.afterKeyword) = o.above := by
    rw [Script.before, o.tokens_split]
    exact take_consumed o.above (o.keyword :: o.afterKeyword)
  have hconsumed := take_consumed (o.body ++ [o.brace]) []
  rw [List.append_nil] at hconsumed
  simp only [definition, functionOf, hbefore, hconsumed, List.dropLast_concat]

end OneFunction

/-! ### What the rule finds in the tree -/

theorem preorder_parameters (parameters : List Parameter) :
    (parameters.map Node.parameter).flatMap Node.preorder = parameters.map Node.parameter := by
  induction parameters with
  | nil => rfl
  | cons p ps ih =>
    rw [List.map_cons, List.flatMap_cons, ih, Node.preorder_eq]
    rfl

section Tree

variable {f : FunctionDefinition} {parameters : List Parameter} (hinline : f.parameters = none)
  (hbody : OneFunction.IsEmptyBody parameters f.body)

include hinline hbody

theorem preorder_emptyBody : ∃ block end_, block.parameters = parameters ∧ end_.kind = .endBlock ∧
    (Node.functionDefinition f).preorder = .functionDefinition f :: .scriptBlock f.body ::
      .paramBlock block :: (parameters.map .parameter ++ [.namedBlock end_]) := by
  obtain ⟨⟨extent, hparams⟩, ⟨extent', hblocks⟩⟩ := hbody
  refine ⟨⟨extent, [], parameters⟩, ⟨.endBlock, true, extent', []⟩, rfl, rfl, ?_⟩
  rw [Node.preorder_eq, Node.children, hinline, Option.getD_none, List.map_nil, List.nil_append,
    List.flatMap_singleton, Node.preorder_eq, Node.children, hparams, hblocks]
  simp only [Option.map_some, Option.toList_some, List.map_cons, List.map_nil, List.singleton_append,
    List.flatMap_cons, List.flatMap_nil, List.append_nil]
  rw [Node.preorder_eq (.paramBlock _), Node.preorder_eq (.namedBlock _), Node.children, Node.children,
    preorder_parameters]
  rfl

theorem namesDeclaredIn_emptyBody : namesDeclaredIn f = parameters.map (·.name) := by
  obtain ⟨block, end_, rfl, -, hpreorder⟩ := preorder_emptyBody hinline hbody
  rw [namesDeclaredIn, hinline, hpreorder]
  simp

theorem dynamicScriptsIn_emptyBody : dynamicScriptsIn f = [] := by
  obtain ⟨block, end_, rfl, hkind, hpreorder⟩ := preorder_emptyBody hinline hbody
  rw [dynamicScriptsIn, hpreorder]
  simp [hkind]

theorem functionsIn_single {root : ScriptBlock} {extent : Extent} (hparams : root.paramBlock = none)
    (hblocks : root.namedBlocks = [⟨.endBlock, true, extent, [.function f]⟩]) :
    functionsIn root = [f] := by
  obtain ⟨block, end_, rfl, -, hpreorder⟩ := preorder_emptyBody hinline hbody
  rw [functionsIn, Node.preorder_eq, Node.children, hparams, hblocks]
  simp only [Option.map_none, Option.toList_none, List.map_cons, List.map_nil, List.nil_append,
    List.flatMap_cons, List.flatMap_nil, List.append_nil]
  rw [Node.preorder_eq, Node.children]
  simp only [List.map_cons, List.map_nil, Statement.node, List.flatMap_cons, List.flatMap_nil,
    List.append_nil, hpreorder]
  simp

end Tree

end HelpAudit
