import HelpAudit.Proofs.LexChunks
import HelpAudit.Proofs.LineLookup
import HelpAudit.Proofs.OneFunction
import HelpAudit.Proofs.ParameterHelp
import HelpAudit.Proofs.SessionAccounts

/-! From source text to findings. A function with a parameter block and a help comment, which stands
    above the function, at the start of its body or at its end, is analyzed without an error, and the
    findings are about exactly the parameters that the comment does not name. -/

namespace HelpAudit

open ParameterDocumentation

/-! ### The source -/

/-- The places for the help of a function. -/
inductive HelpPlacement where
  | above
  | bodyStart
  | bodyEnd
  deriving DecidableEq

/-- A comment that documents parameters, on lines of its own. -/
def helpText (documented : List String) : String :=
  "<#\n" ++ String.join (documented.map fun name => ".PARAMETER " ++ name ++ "\n") ++ "#>\n"

/-- A function with parameters and with help at one of the places. -/
def functionSource (placement : HelpPlacement) (name : String) (parameters documented : List String) :
    String :=
  let help (here : HelpPlacement) := if placement = here then helpText documented else ""
  help .above ++ "function " ++ name ++ " \x7b\n" ++ help .bodyStart ++
    "param(" ++ ", ".intercalate (parameters.map ("$" ++ ·)) ++ ")\n" ++ help .bodyEnd ++ "\x7d"

/-- A function's name of ASCII letters, digits and hyphens. -/
def IsPlainName (name : String) : Prop := name ≠ "" ∧ ∀ c ∈ name.toList, Lexeme.isPlain c = true

/-- A name of word characters, such as a variable may have. -/
def IsWordName (name : String) : Prop := name ≠ "" ∧ ∀ c ∈ name.toList, Text.isWord c = true

instance (name : String) : Decidable (IsPlainName name) :=
  decidable_of_iff (name ≠ "" ∧ name.toList.all Lexeme.isPlain = true)
    (and_congr_right fun _ => List.all_eq_true)

instance (name : String) : Decidable (IsWordName name) :=
  decidable_of_iff (name ≠ "" ∧ name.toList.all Text.isWord = true)
    (and_congr_right fun _ => List.all_eq_true)

/-! ### Its tokens -/

namespace Chunk

/-- One blank. -/
def blank : Chunk := ⟨.blanks, [' ']⟩

/-- The end of a line. -/
def newline : Chunk := .mark .newline "\n"

/-- A variable. -/
def var (name : String) : Chunk := ⟨.token .var, '$' :: name.toList⟩

end Chunk

open Chunk

/-- The help comment and the end of its line, or nothing. -/
def helpChunks (here : Bool) (documented : List String) : List Chunk :=
  if here then [⟨.token (.comment .block), parameterComment documented⟩, newline] else []

/-- Variables with commas between them. -/
def parameterChunks : List String → List Chunk
  | [] => []
  | [name] => [.var name]
  | name :: names => .var name :: mark .comma "," :: blank :: parameterChunks names

/-- The lexemes of the body, braces included. -/
def bodyChunks (placement : HelpPlacement) (parameters documented : List String) : List Chunk :=
  mark (.opening .brace) "\x7b" :: newline :: (helpChunks (placement = .bodyStart) documented ++
    mark (.keyword .param) "param" :: mark (.opening .paren) "(" :: (parameterChunks parameters ++
    mark (.closing .paren) ")" :: newline :: (helpChunks (placement = .bodyEnd) documented ++
    [mark (.closing .brace) "\x7d"])))

/-- The lexemes of the source; the function's name may be a keyword. -/
def functionChunks (placement : HelpPlacement) (kind : TokenKind) (name : String)
    (parameters documented : List String) : List Chunk :=
  helpChunks (placement = .above) documented ++
    mark (.keyword (.declare .function)) "function" :: blank :: ⟨.token kind, name.toList⟩ :: blank ::
    bodyChunks placement parameters documented

theorem toList_helpText (documented : List String) :
    (helpText documented).toList = parameterComment documented ++ ['\n'] := by
  have hlines : (String.join (documented.map fun name => ".PARAMETER " ++ name ++ "\n")).toList =
      documented.flatMap (parameterLine · ++ ['\n']) := by
    rw [String.toList_join, List.flatMap_map]
    refine congrArg (documented.flatMap ·) (funext fun name => ?_)
    rw [String.toList_append, String.toList_append]
    rfl
  rw [helpText, String.toList_append, String.toList_append, hlines, parameterComment]
  simp

theorem joined_helpChunks (here : Bool) (documented : List String) : joined (helpChunks here documented) =
    (if here then helpText documented else "").toList := by
  cases here with
  | false => rfl
  | true =>
    rw [if_pos rfl, toList_helpText]
    rfl

theorem joined_parameterChunks : ∀ parameters : List String, joined (parameterChunks parameters) =
    (", ".intercalate (parameters.map ("$" ++ ·))).toList
  | [] => rfl
  | [name] => by
    rw [List.map_cons, List.map_nil, String.intercalate_singleton, String.toList_append]
    exact List.append_nil _
  | name :: other :: names => by
    have hothers := joined_parameterChunks (other :: names)
    rw [List.map_cons] at hothers
    rw [List.map_cons, List.map_cons, String.intercalate_cons_cons, String.toList_append,
      String.toList_append, String.toList_append, ← hothers, List.append_assoc]
    rfl

theorem joined_functionChunks (placement : HelpPlacement) (kind : TokenKind) (name : String)
    (parameters documented : List String) :
    joined (functionChunks placement kind name parameters documented) =
      (functionSource placement name parameters documented).toList := by
  simp only [functionSource, String.toList_append, ← joined_parameterChunks]
  simp only [functionChunks, bodyChunks, joined_append, joined_cons, joined_helpChunks,
    decide_eq_true_eq]
  simp [mark, newline, blank, joined]

/-! ### Cutting the source -/

theorem IsWordName.toList_ne_nil {name : String} (h : IsWordName name) : name.toList ≠ [] :=
  mt String.toList_eq_nil_iff.mp h.1

theorem not_mem_parameterLines {documented : List String} (h : ∀ name ∈ documented, IsWordName name) :
    '#' ∉ documented.flatMap (parameterLine · ++ ['\n']) := by
  have hfixed : '#' ∉ ".PARAMETER ".toList ∧ '#' ∉ ['\n'] := by decide
  intro hmem
  obtain ⟨name, hn, hin⟩ := List.mem_flatMap.mp hmem
  rcases List.mem_append.mp hin with hline | hend
  · rcases List.mem_append.mp hline with hword | hname
    · exact hfixed.1 hword
    · exact absurd ((h name hn).2 _ hname) (by decide)
  · exact hfixed.2 hend

theorem allFit_helpChunks {documented : List String} (h : ∀ name ∈ documented, IsWordName name)
    (here : Bool) (rest : List Char) : AllFit (helpChunks here documented) rest := by
  cases here with
  | false => trivial
  | true =>
    have hbody : '#' ∉ '\n' :: documented.flatMap (parameterLine · ++ ['\n']) := fun hmem =>
      (List.mem_cons.mp hmem).elim (by decide) (not_mem_parameterLines h)
    have hopen : ¬ ['#', '>'] <:+: '\n' :: documented.flatMap (parameterLine · ++ ['\n']) :=
      fun hwithin => hbody (hwithin.subset List.mem_cons_self)
    exact ⟨Lexeme.fits_blockComment hopen _, rfl, trivial⟩

theorem joined_parameterChunks_cons (name : String) (names : List String) :
    ∃ cs, joined (parameterChunks (name :: names)) = '$' :: cs := by
  cases names with
  | nil => exact ⟨_, rfl⟩
  | cons other names => exact ⟨_, rfl⟩

/-- Each variable ends at the comma or the parenthesis behind it. -/
theorem allFit_parameterChunks (rest : List Char) : ∀ {parameters : List String},
    (∀ name ∈ parameters, IsWordName name) → AllFit (parameterChunks parameters) (')' :: rest)
  | [], _ => trivial
  | [name], h => by
    obtain ⟨hname, -⟩ := List.forall_mem_cons.mp h
    exact ⟨Lexeme.fits_variable hname.toList_ne_nil hname.2 (by decide) (by decide) rest, trivial⟩
  | name :: other :: names, h => by
    obtain ⟨hname, hothers⟩ := List.forall_mem_cons.mp h
    have hblank : blank.Fits (joined (parameterChunks (other :: names)) ++ ')' :: rest) := by
      obtain ⟨cs, hcs⟩ := joined_parameterChunks_cons other names
      rw [hcs]
      exact Lexeme.fits_blank (by decide) _
    exact ⟨Lexeme.fits_variable hname.toList_ne_nil hname.2 (by decide) (by decide) _, rfl, hblank,
      allFit_parameterChunks rest hothers⟩

/-- Whatever the names are, the source falls into the lexemes that it was made from. -/
theorem exists_allFit {name : String} {parameters documented : List String} (hname : IsPlainName name)
    (hparameters : ∀ p ∈ parameters, IsWordName p) (hdocumented : ∀ d ∈ documented, IsWordName d)
    (placement : HelpPlacement) : ∃ kind : TokenKind, kind.isNameLike = true ∧
      AllFit (functionChunks placement kind name parameters documented) [] := by
  have hhelp := allFit_helpChunks hdocumented
  have hend : AllFit (mark (.closing .paren) ")" :: newline ::
      (helpChunks (placement = .bodyEnd) documented ++ [mark (.closing .brace) "\x7d"])) [] :=
    ⟨rfl, rfl, allFit_append.mpr ⟨hhelp _ _, rfl, trivial⟩⟩
  have hbody : AllFit (bodyChunks placement parameters documented) [] :=
    ⟨rfl, rfl, allFit_append.mpr ⟨hhelp _ _, rfl, rfl,
      allFit_append.mpr ⟨allFit_parameterChunks _ hparameters, hend⟩⟩⟩
  have hne : name.toList ≠ [] := mt String.toList_eq_nil_iff.mp hname.1
  obtain ⟨kind, hkind, hfits⟩ := Lexeme.fits_name hne hname.2
    (joined (bodyChunks placement parameters documented) ++ [])
  have hblank : ∀ rest, blank.Fits (name.toList ++ rest) := by
    obtain ⟨c, cs, hcs⟩ := List.exists_cons_of_ne_nil hne
    rw [hcs]
    have hc := hname.2 c (hcs ▸ List.mem_cons_self)
    exact fun rest => Lexeme.fits_blank (Lexeme.isWordPart_of_isPlain hc).2 _
  refine ⟨kind, hkind, allFit_append.mpr ⟨hhelp _ _, rfl, ?_, hfits, Lexeme.fits_blank (by decide) _,
    hbody⟩⟩
  rw [joined_cons, List.append_assoc]
  exact hblank _

/-! ### Parsing the tokens -/

theorem tokens_helpChunks_trivia (start : Nat) (here : Bool) (documented : List String) :
    ∀ t ∈ tokens start (helpChunks here documented), t.kind.isTrivia = true := by
  cases here with
  | false => exact fun _ h => absurd h List.not_mem_nil
  | true => simp [helpChunks, newline, TokenKind.isTrivia, TokenKind.isComment]

/-- The tokens make one function, with a newline and perhaps the help at either end of its body. -/
theorem exists_oneFunction (placement : HelpPlacement) {kind : TokenKind} (hkind : kind.isNameLike = true)
    (name : String) (parameters documented : List String) (source : List Char) (file : Option String) :
    ∃ o : OneFunction ⟨source, file,
        tokens 0 (functionChunks placement kind name parameters documented)⟩,
      o.name.value = name ∧ o.close.kind = .closing .paren ∧
      o.keyword.start = 0 + Text.byteLength (joined (helpChunks (placement = .above) documented)) ∧
      (∃ start, o.inner = tokens start (parameterChunks parameters)) ∧
      (∃ start, o.above = tokens start (helpChunks (placement = .above) documented)) ∧
      (∃ n start, n.kind = .newline ∧
        o.leading = n :: tokens start (helpChunks (placement = .bodyStart) documented)) ∧
      (∃ n start, n.kind = .newline ∧
        o.trailing = n :: tokens start (helpChunks (placement = .bodyEnd) documented)) := by
  have htrivia : ∀ (n : Token) (start : Nat) (here : Bool), n.kind = .newline →
      ∀ t ∈ n :: tokens start (helpChunks here documented), t.kind.isTrivia = true := by
    intro n start here hn t ht
    rcases List.mem_cons.mp ht with rfl | ht
    · rw [hn]; rfl
    · exact tokens_helpChunks_trivia start here documented t ht
  have htokens : tokens 0 (functionChunks placement kind name parameters documented) =
    tokens 0 (functionChunks placement kind name parameters documented) := rfl
  conv_rhs at htokens =>
    simp only [functionChunks, bodyChunks, newline, blank, tokens_append, tokens_mark, tokens_token,
      tokens_blanks, tokens_nil, String.ofList_toList]
  refine ⟨⟨_, _, _, _, _ :: _, _, _, _, _, _ :: _, _, htokens, tokens_helpChunks_trivia _ _ _, rfl, hkind,
    rfl, htrivia _ _ _ rfl, rfl, rfl, htrivia _ _ _ rfl, rfl⟩, rfl, rfl, rfl, ⟨_, rfl⟩, ⟨_, rfl⟩,
    ⟨_, _, rfl, rfl⟩, ⟨_, _, rfl, rfl⟩⟩

theorem variableName_dollar {name : String} (h : IsWordName name) :
    variableName (.ofList ('$' :: name.toList)) = name := by
  rw [variableName, String.toList_ofList]
  obtain ⟨c, cs, hcs⟩ := List.exists_cons_of_ne_nil h.toList_ne_nil
  have hbrace : c ≠ '\x7b' := by
    rintro rfl
    exact absurd (h.2 _ (hcs ▸ List.mem_cons_self)) (by decide)
  have hname := String.ofList_toList (s := name)
  rw [hcs] at hname
  simp [hcs, hbrace, hname]

/-- A variable and what ends its segment make a parameter without comments. -/
theorem parameterList_var (script : Script) (opener : Token) {name : String} (h : IsWordName name)
    (start : Nat) : ∃ segment : Segment, ∃ p : Parameter, p.name = name ∧ p.leadingComments = [] ∧
      segment.parameter? script = some p ∧
      ∀ ts, parameterList script opener {} 0
          (.startingAt start .var (.ofList ('$' :: name.toList)) :: ts) =
        parameterList script opener segment 0 ts := by
  refine ⟨(({} : Segment).read script 0
    (.startingAt start .var (.ofList ('$' :: name.toList)))).1, _, ?_, ?_, rfl, fun ts => ?_⟩
  · exact variableName_dollar h
  · rfl
  · rw [parameterList, if_neg (by simp), if_neg (by simp)]
    rfl

/-- The list has the variables as parameters, none of them with comments. -/
theorem parameterList_parameterChunks (script : Script) (opener : Token) {close : Token}
    (hclose : close.kind = .closing .paren) (rest : List Token) : ∀ {parameters : List String}
    (start : Nat), (∀ name ∈ parameters, IsWordName name) → ∃ list : ParameterList,
      parameterList script opener {} 0 (tokens start (parameterChunks parameters) ++ close :: rest) =
        .ok list ∧ list.rest = rest ∧ list.parameters.map (·.name) = parameters ∧
      ∀ p ∈ list.parameters, p.leadingComments = []
  | [], start, _ => by
    refine ⟨⟨[], close, rest⟩, ?_, rfl, rfl, fun _ h => absurd h List.not_mem_nil⟩
    rw [parameterChunks, tokens_nil, List.nil_append, parameterList, if_pos ⟨rfl, hclose⟩]
    rfl
  | [name], start, h => by
    obtain ⟨hname, -⟩ := List.forall_mem_cons.mp h
    obtain ⟨segment, p, rfl, hcomments, hp, hread⟩ := parameterList_var script opener hname start
    refine ⟨⟨[p], close, rest⟩, ?_, rfl, rfl, by simpa using hcomments⟩
    rw [parameterChunks, var, tokens_token, tokens_nil, List.singleton_append, hread, parameterList,
      if_pos ⟨rfl, hclose⟩, hp]
    rfl
  | name :: other :: names, start, h => by
    obtain ⟨hname, hothers⟩ := List.forall_mem_cons.mp h
    obtain ⟨segment, p, rfl, hcomments, hp, hread⟩ := parameterList_var script opener hname start
    rw [parameterChunks, var, tokens_token, tokens_mark, blank, tokens_blanks, List.cons_append,
      List.cons_append, hread, parameterList, if_neg (by simp), if_pos ⟨rfl, rfl⟩, hp]
    · obtain ⟨list, hlist, hrest, hnames, hnone⟩ :=
        parameterList_parameterChunks script opener hclose rest _ hothers
      rw [hlist]
      refine ⟨_, rfl, hrest, by simp [hnames], by simpa [hcomments] using hnone⟩
    · simp

/-! ### The help -/

/-- Wherever it is placed, the help is the only group of comments of the function. -/
theorem helpComments_placed {script : Script} {o : OneFunction script} {placement : HelpPlacement}
    {documented : List String} (hclose : o.close.kind = .closing .paren)
    (habove : ∃ start, o.above = tokens start (helpChunks (placement = .above) documented))
    (hleading : ∃ n start, n.kind = .newline ∧
      o.leading = n :: tokens start (helpChunks (placement = .bodyStart) documented))
    (htrailing : ∃ n start, n.kind = .newline ∧
      o.trailing = n :: tokens start (helpChunks (placement = .bodyEnd) documented)) :
    (helpComments script o.above o.body).map (·.comments) =
      [[.ofList (parameterComment documented)]] := by
  obtain ⟨_, habove⟩ := habove
  obtain ⟨n, _, hn, hleading⟩ := hleading
  obtain ⟨m, _, hm, htrailing⟩ := htrailing
  rw [helpComments, OneFunction.body, habove, hleading, htrailing]
  cases placement <;>
    simp [helpChunks, newline, newlineCount, trailingGroup?, leadingGroup?, commentRun?, commentGroup,
      TokenKind.isComment, List.filter_cons, hn, hm, hclose, o.param_kind]

theorem foldl_addLeading {parameters : List Parameter} (h : ∀ p ∈ parameters, p.leadingComments = [])
    (help : CommentHelp) : parameters.foldl CommentHelp.addLeading help = help := by
  induction parameters with
  | nil => rfl
  | cons p ps ih =>
    obtain ⟨hp, hps⟩ := List.forall_mem_cons.mp h
    rw [List.foldl_cons, CommentHelp.addLeading, hp, if_pos (by simp)]
    exact ih hps

/-- A function documents exactly the names in its help comment. -/
theorem documents_of_helpComments {f : FunctionDefinition} {documented : List String}
    (h : ∀ name ∈ documented, IsWordName name)
    (hgroups : f.helpComments.map (·.comments) = [[.ofList (parameterComment documented)]])
    (hleading : ∀ p ∈ f.ownParameters, p.leadingComments = []) (name : String) :
    f.help.documents name = true ↔ Text.upper name ∈ documented.map Text.upper := by
  obtain ⟨group, hgroup, hcomments⟩ := List.map_eq_singleton_iff.mp hgroups
  have harguments : ∀ name ∈ documented, IsArgument name.toList := fun name hn =>
    .of_isWord (h name hn).toList_ne_nil (h name hn).2
  rw [documents_iff, FunctionDefinition.help, hgroup]
  rcases ofComments?_parameterComment harguments with ⟨rfl, hnone⟩ | ⟨help, hsome, hkeys⟩
  · simp [hcomments, hnone]
  · simp only [List.findSome?_cons, hcomments, hsome, foldl_addLeading hleading]
    exact hkeys _

/-! ### The tree -/

theorem withoutMark_functionSource (placement : HelpPlacement) (name : String)
    (parameters documented : List String) :
    withoutMark (functionSource placement name parameters documented).toList =
      (functionSource placement name parameters documented).toList := by
  rw [← joined_functionChunks placement .word]
  cases placement <;> rfl

theorem lastLine_helpChunks (here : Bool) (documented : List String) :
    Text.lastLine (joined (helpChunks here documented)) = [] := by
  cases here with
  | false => rfl
  | true => rw [joined_helpChunks, if_pos rfl, toList_helpText, Text.lastLine_concat, if_pos rfl]

/-- The function starts in the first column, since what stands above it ends with a line. -/
theorem startColumn_definition {source : List Char} {file : Option String} {tokens : List Token}
    {o : OneFunction ⟨source, file, tokens⟩} {here : Bool} {documented : List String} {rest : List Char}
    (hsource : source = joined (helpChunks here documented) ++ rest)
    (hstart : o.keyword.start = 0 + Text.byteLength (joined (helpChunks here documented)))
    (body : ScriptBlock) : (o.definition body).extent.startColumn = 1 := by
  have hplace := Position.ofOffset_append (joined (helpChunks here documented)) rest
  rw [lastLine_helpChunks, ← hsource, ← Nat.zero_add (Text.byteLength _), ← hstart] at hplace
  exact congrArg Position.column hplace

/-- The source is parsed to a tree with one function, which declares the parameters in order and
    documents exactly the names in its help. -/
theorem parse_functionSource {name : String} {parameters documented : List String}
    (hname : IsPlainName name) (hparameters : ∀ p ∈ parameters, IsWordName p)
    (hdocumented : ∀ d ∈ documented, IsWordName d) (placement : HelpPlacement) (file : Option String) :
    ∃ root f, parse (functionSource placement name parameters documented) file = .ok root ∧
      functionsIn root = [f] ∧ f.name = name ∧ namesDeclaredIn f = parameters ∧
      dynamicScriptsIn f = [] ∧ Correctable f ∧
      ∀ p, f.help.documents p = true ↔ Text.upper p ∈ documented.map Text.upper := by
  obtain ⟨kind, hkind, hfit⟩ := exists_allFit hname hparameters hdocumented placement
  have htokens := tokenize_joined hfit
  rw [joined_functionChunks] at htokens
  obtain ⟨o, hvalue, hclose, hstart, ⟨start, hinner⟩, habove, hleading, htrailing⟩ := exists_oneFunction
    placement hkind name parameters documented
    (functionSource placement name parameters documented).toList file
  -- the rest is about tokens: the parameter list gives the names, and the tokens around it the comments
  obtain ⟨list, hread, hrest, hnames, hcomments⟩ := parameterList_parameterChunks _ o.paren hclose
    (o.trailing ++ [o.brace]) start hparameters
  rw [← hinner] at hread
  obtain ⟨body, root, hempty, hparse, hparams, extent, hblocks⟩ :=
    OneFunction.HasList.parseTokens ⟨hread, hrest⟩
  have hown : (o.definition body).ownParameters = list.parameters := by
    obtain ⟨extent, hbody⟩ := hempty.params
    simp [FunctionDefinition.ownParameters, OneFunction.definition, functionOf, hbody]
  refine ⟨root, o.definition body, ?_, functionsIn_single rfl hempty hparams hblocks, hvalue, ?_,
    dynamicScriptsIn_emptyBody rfl hempty, ?_, ?_⟩
  · rw [parse]
    simp only [withoutMark_functionSource, htokens]
    exact hparse
  · rw [namesDeclaredIn_emptyBody rfl hempty, hnames]
  · have hsource := joined_functionChunks placement kind name parameters documented
    rw [functionChunks, joined_append] at hsource
    rw [Correctable, startColumn_definition hsource.symm hstart]
    decide
  · refine documents_of_helpComments hdocumented ?_ (hown ▸ hcomments)
    rw [OneFunction.definition_helpComments]
    exact helpComments_placed hclose habove hleading htrailing

/-! ### The findings -/

theorem analyze_builtin {config : Config} (h : config.isEnabled info.name = true) (programs : Programs)
    (clock : String → UInt64) (root : ScriptBlock) (file : Option String) :
    ((Engine.new config programs).analyze clock (some root) file).outcome =
      ((rule (config.settings.dynamicParameters.evaluator programs)).run root file).outcome := by
  have hrules : (Engine.new config programs).registry.rules = [rule _] := rfl
  rw [Engine.analyze_single hrules]
  exact if_pos h

/-- A script with one function that has no dynamic parameters. -/
theorem rule_outcome_single {root : ScriptBlock} {f : FunctionDefinition} (hfunctions : functionsIn root = [f])
    (hdynamic : dynamicScriptsIn f = []) (hfits : Correctable f) (evaluator : Evaluator)
    (file : Option String) : ((rule evaluator).run root file).outcome =
      .ok ((undocumented (firstSpellings [] (namesDeclaredIn f)) f.help).map (noted f file)) := by
  have hnames : namesAfter evaluator [] f = namesDeclaredIn f := by
    rw [namesAfter, hdynamic, answersTo, List.flatMap_nil, List.append_nil]
  have hfound : (undocumented (firstSpellings [] (namesAfter evaluator [] f)) f.help).mapM (finding f file) =
      .ok ((undocumented (firstSpellings [] (namesDeclaredIn f)) f.help).map (noted f file)) := by
    rw [hnames, mapM_finding, if_pos (.inr hfits)]
  rw [rule_outcome_eq, hfunctions, checkFunctions_run_ok [] hfound]
  exact congrArg Except.ok (List.append_nil _)

/-- Whatever the names are and wherever the help stands, the analysis of the function succeeds, and it
    reports the first spelling of every parameter that the help does not name, in order. How dynamic
    parameters are evaluated does not matter, as the function has none. -/
theorem analyzeSource_reports_undocumented {name : String} {parameters documented : List String}
    (hname : IsPlainName name) (hparameters : ∀ p ∈ parameters, IsWordName p)
    (hdocumented : ∀ d ∈ documented, IsWordName d) {config : Config}
    (hconfig : config.isEnabled info.name = true) (placement : HelpPlacement) (programs : Programs)
    (clock : String → UInt64) (file : Option String) :
    ∃ findings, ((Engine.new config programs).analyzeSource clock
        (functionSource placement name parameters documented) file).outcome = .ok findings ∧
      findings.map (·.subject) =
        ((parameters.eraseDupsBy fun a b => Text.upper a == Text.upper b).filter fun p =>
          Text.upper p ∉ documented.map Text.upper).map some ∧
      ∀ d ∈ findings, d.functionName = some name := by
  obtain ⟨root, f, hparse, hfunctions, rfl, rfl, hdynamic, hfits, hdocuments⟩ :=
    parse_functionSource hname hparameters hdocumented placement file
  have houtcome := analyze_builtin hconfig programs clock root file
  rw [rule_outcome_single hfunctions hdynamic hfits, firstSpellings_eq_eraseDupsBy] at houtcome
  rw [Engine.analyzeSource, hparse]
  refine ⟨_, houtcome, ?_, ?_⟩
  · rw [List.map_map, undocumented]
    refine congrArg (List.map some) (List.filter_congr fun p _ => ?_)
    rw [Bool.eq_iff_iff]
    simp [← hdocuments]
  · intro d hd
    obtain ⟨p, -, rfl⟩ := List.mem_map.mp hd
    rfl

theorem analyzeSource_reports_undocumented_spellings :
    IsPlainName "Get-Item2" ∧ (∀ p ∈ ["Straße", "name", "STRASSE", "x"], IsWordName p) ∧
    (∀ d ∈ ["Name"], IsWordName d) ∧
    ∃ findings, ((Engine.new { settings := { dynamicParameters := { enabled := false } } }
        fun _ _ => .endless).analyzeSource (fun _ => 0)
        (functionSource .bodyStart "Get-Item2" ["Straße", "name", "STRASSE", "x"] ["Name"])
        none).outcome = .ok findings ∧
      findings.map (·.subject) = [some "Straße", some "x"] ∧
      ∀ d ∈ findings, d.functionName = some "Get-Item2" := by
  have hname : IsPlainName "Get-Item2" := by decide
  have hparameters : ∀ p ∈ ["Straße", "name", "STRASSE", "x"], IsWordName p := by decide +kernel
  have hdocumented : ∀ d ∈ ["Name"], IsWordName d := by decide +kernel
  have hconfig : Config.isEnabled { settings := { dynamicParameters := { enabled := false } } } info.name =
      true := rfl
  refine ⟨hname, hparameters, hdocumented, ?_⟩
  obtain ⟨findings, houtcome, hsubjects, hnames⟩ := analyzeSource_reports_undocumented hname hparameters
    hdocumented hconfig .bodyStart (fun _ _ => .endless) (fun _ => 0) none
  exact ⟨findings, houtcome, hsubjects.trans (by decide +kernel), hnames⟩

end HelpAudit
