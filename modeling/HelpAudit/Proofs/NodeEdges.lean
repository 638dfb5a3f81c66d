import HelpAudit.Proofs.MaximalMunch
import HelpAudit.Proofs.ReadNodes
import HelpAudit.Proofs.StatementExcerpts

/-! The tokens at the edges of nodes. A node that a keyword or a brace opens has its extent from that
    token to the token that closes it, and the text of the extent has the texts of the two at its ends.
    A script block without named blocks still has one block, which no keyword opens. -/

namespace HelpAudit

/-! ### The text of a token -/

/-- The token is a mark of the kind: it has that text and no other. -/
def Token.IsMark (t : Token) (kind : TokenKind) (text : String) : Prop := t.kind = kind ∧ t.value = text

/-- The token is the keyword, written in any case. -/
def Token.IsKeyword (t : Token) (word : Keyword) : Prop :=
  t.kind = .keyword word ∧ t.value.toList ∈ Lexeme.anyCase word.text

/-- A token that does not run on to an end mark has a text that is declared for its kind. -/
theorem value_mem_declared {source : List Char} {tokens : List Token}
    (h : tokenize source = .ok tokens) {t : Token} (ht : t ∈ tokens) {kind : TokenKind}
    (hkind : t.kind = kind) (hruns : ¬ (Lexeme.token kind).RunsOn) :
    t.value.toList ∈ (Lexeme.token kind).declared := by
  obtain ⟨-, rfl⟩ := tokenize_eq_ok h
  obtain ⟨piece, hpiece, htoken⟩ := List.mem_filterMap.mp ht
  obtain ⟨-, hvalue, -⟩ := Piece.token?_mem (Option.mem_toList.mpr htoken)
  have hlexeme : piece.lexeme = .token kind := by
    obtain ⟨lexeme, text, start⟩ := piece
    cases lexeme with
    | token found => cases htoken; exact congrArg _ hkind
    | blanks => cases htoken
    | continuation => cases htoken
  obtain ⟨before, after, -, -, hwhole⟩ := Cut.exists_of_mem_pieces 0 source hpiece
  obtain ⟨n, more, hhead, hrest, hlength⟩ := Lexeme.whole?_eq_some hwhole
  rw [hlexeme, Lexeme.rest?_of_not_runsOn hruns] at hrest
  obtain rfl : 0 = more := Option.some.inj hrest
  obtain rfl : piece.text.length = n := hlength
  rw [hvalue, ← hlexeme]
  exact (Lexeme.longestMatch_of_head? hhead).mem_declared

section Marks

variable {source : List Char} {tokens : List Token} (h : tokenize source = .ok tokens) {t : Token}
  (ht : t ∈ tokens)

include h ht

theorem isMark_opening {opener : Opener} (hkind : t.kind = .opening opener) :
    t.IsMark (.opening opener) opener.text :=
  ⟨hkind, String.toList_inj.mp (value_mem_declared h ht hkind (by rintro (h | h | h) <;> cases h))⟩

theorem isMark_closing {closer : Closer} (hkind : t.kind = .closing closer) :
    t.IsMark (.closing closer) closer.text :=
  ⟨hkind, String.toList_inj.mp (value_mem_declared h ht hkind (by rintro (h | h | h) <;> cases h))⟩

theorem isKeyword_of_kind {word : Keyword} (hkind : t.kind = .keyword word) : t.IsKeyword word :=
  ⟨hkind, value_mem_declared h ht hkind (by rintro (h | h | h) <;> cases h)⟩

end Marks

/-! ### From one token to another -/

/-- The extent runs from a token of the script to a later one, and its text from the text of the first
    to that of the second. -/
structure Extent.RunsBetween (script : Script) (first last : Token) (extent : Extent) : Prop where
  tokens : [first, last].Sublist script.tokens
  start : extent.startOffset = first.start
  stop : extent.endOffset = last.stop
  text : ∃ inner, extent.text = first.value ++ inner ++ last.value

theorem pair_sublist {first last : Token} {ts : List Token} {script : Script}
    (h : first :: ts <:+ script.tokens) (hlast : last ∈ ts) : [first, last].Sublist script.tokens :=
  ((List.singleton_sublist.mpr hlast).cons_cons first).trans h.sublist

/-- The extent from one token to a later one has their texts at its ends. -/
theorem Script.IsPlaced.runsBetween {script : Script} (hp : script.IsPlaced) {first last : Token}
    (h : [first, last].Sublist script.tokens) :
    (script.extent first.start last.stop).RunsBetween script first last := by
  have hfirst := hp.standsIn first (h.subset List.mem_cons_self)
  have hlast := hp.standsIn last (h.subset (List.mem_cons_of_mem _ List.mem_cons_self))
  have hle : first.stop ≤ last.start :=
    (List.pairwise_cons.mp (hp.spaced.sublist h)).1 last List.mem_cons_self
  refine ⟨h, Script.extent_startOffset hfirst.start_boundary _,
    Script.extent_endOffset hlast.stop_boundary _, ?_⟩
  obtain ⟨before, after, hsource, hbefore⟩ := hfirst.placed
  obtain ⟨before', after', hsource', hbefore'⟩ := hlast.placed
  -- the first token ends where the second starts, or before
  obtain ⟨inner, rfl⟩ : ∃ inner, before' = before ++ first.value.toList ++ inner := by
    refine Text.exists_append_of_byteLength_le (b := after) (d := last.value.toList ++ after') ?_ ?_
    · rw [← hsource, hsource', List.append_assoc]
    · rw [Text.byteLength_append, hbefore, hbefore', ← hfirst.sized]
      exact hle
  have hcut : script.source =
      before ++ (first.value.toList ++ inner ++ last.value.toList) ++ after' := by
    simpa only [List.append_assoc] using hsource'
  have hstop : last.stop = Text.byteLength before +
      Text.byteLength (first.value.toList ++ inner ++ last.value.toList) := by
    rw [hlast.sized, ← hbefore']
    simp only [Text.byteLength_append, Nat.add_assoc]
  refine ⟨.ofList inner, ?_⟩
  rw [← hbefore, hstop, Script.extent_text hcut, String.ofList_append, String.ofList_append,
    String.ofList_toList, String.ofList_toList]

/-! ### The blocks of a script block -/

/-- The script block has one block that no keyword opens, or blocks that keywords open and no other. -/
def ScriptBlock.HasBody (block : ScriptBlock) : Prop :=
  (∃ body, block.namedBlocks = [body] ∧ body.kind = .endBlock ∧ body.unnamed = true) ∨
    (block.namedBlocks ≠ [] ∧ ∀ named ∈ block.namedBlocks, named.unnamed = false)

theorem ReadsNamed.unnamed_eq_false {script : Script} {closing : Bool} {blocks : List NamedBlock}
    {ts rest : List Token} (h : ReadsNamed script closing ts blocks rest) :
    ∀ named ∈ blocks, named.unnamed = false := by
  induction blocks generalizing ts with
  | nil => exact fun _ hmem => absurd hmem List.not_mem_nil
  | cons block blocks ih =>
    cases h with
    | block _ _ _ _ _ _ hblocks => exact List.forall_mem_cons.mpr ⟨rfl, ih hblocks⟩

/-- Tokens that start with the keyword of a named block and its brace are read as a block. -/
theorem ReadsNamed.ne_nil {script : Script} {closing : Bool} {blocks : List NamedBlock}
    {ts rest : List Token} (hkind : (namedBlockKind? ts).isSome = true)
    (h : ReadsNamed script closing ts blocks rest) : blocks ≠ [] := by
  obtain ⟨t, after, kind, rfl, ht⟩ : ∃ t after kind, ts = t :: after ∧
      t.kind = .keyword (.block kind) := by
    obtain ⟨kind, hkind⟩ := Option.isSome_iff_exists.mp hkind
    cases ts with
    | nil => cases hkind
    | cons t after =>
      obtain ⟨opener, inner, hopener, -⟩ := opener_of_namedBlockKind? hkind
      exact ⟨t, after, kind, rfl, (namedBlockKind?_cons hkind hopener).1⟩
  -- a keyword is no separator, so the reading starts with it and does not end there
  have hskip : skipSeparators (t :: after) = t :: after :=
    skipSeparators_cons_of_code after (by rw [ht]; rfl)
  cases h with
  | finish hend =>
    rw [hskip] at hend
    cases hend
  | closed hend hclose =>
    rw [hskip] at hend
    cases hend
    rw [ht] at hclose
    cases hclose
  | block => exact List.cons_ne_nil _ _

theorem ReadsBody.hasBody {script : Script} {closing : Bool} {ts rest : List Token}
    {blocks : List NamedBlock} (h : ReadsBody script closing ts blocks rest) (extent : Extent)
    (params : Option ParamBlock) : ScriptBlock.HasBody ⟨extent, params, blocks⟩ := by
  cases h with
  | named hkind hnamed => exact .inr ⟨hnamed.ne_nil hkind, hnamed.unnamed_eq_false⟩
  | unnamed _ _ => exact .inl ⟨_, rfl, rfl, rfl⟩

theorem ReadsBlock.hasBody {script : Script} {opener : Option Token} {ts rest : List Token}
    {block : ScriptBlock} (h : ReadsBlock script opener ts block rest) : block.HasBody := by
  cases h with
  | whole _ hbody => exact hbody.hasBody _ _
  | braced _ hbody _ => exact hbody.hasBody _ _

/-! ### The edges of nodes -/

/-- The script block stands in braces. -/
def ScriptBlock.IsBraced (script : Script) (block : ScriptBlock) : Prop :=
  ∃ opener close, block.extent.RunsBetween script opener close ∧
    opener.IsMark (.opening .brace) "\x7b" ∧ close.IsMark (.closing .brace) "\x7d"

/-- The named block runs from its keyword to a closing brace. -/
def NamedBlock.IsOpened (script : Script) (block : NamedBlock) : Prop :=
  ∃ keyword close, block.extent.RunsBetween script keyword close ∧
    keyword.IsKeyword (.block block.kind) ∧ close.IsMark (.closing .brace) "\x7d"

/-- The function runs from the keyword of its kind to the closing brace of its body, and its name is the
    token behind the keyword. -/
def FunctionDefinition.IsDeclared (script : Script) (f : FunctionDefinition) : Prop :=
  ∃ before keyword name after opener close, script.tokens = before ++ keyword :: name :: after ∧
    keyword.IsKeyword (.declare f.kind) ∧ f.name = name.value ∧
    f.extent.RunsBetween script keyword close ∧ f.body.extent.RunsBetween script opener close ∧
    close.IsMark (.closing .brace) "\x7d"

/-- The parameter block ends with a closing parenthesis. -/
def ParamBlock.IsClosed (script : Script) (block : ParamBlock) : Prop :=
  ∃ first close, block.extent.RunsBetween script first close ∧ close.IsMark (.closing .paren) ")"

/-- What stands at the edges of a node, and in a script block between them. -/
def Node.HasEdges (script : Script) : Node → Prop
  | .scriptBlock block => block.HasBody
  | .functionDefinition f => f.IsDeclared script
  | .paramBlock block => block.IsClosed script
  | .namedBlock block => block.unnamed = false → block.IsOpened script
  | .parameter _ => True
  | .pipeline _ => True

section Edges

variable {script : Script} (htokens : tokenize script.source = .ok script.tokens)

include htokens

theorem ReadsBlock.isBraced {opener : Token} {ts rest : List Token} {block : ScriptBlock}
    (hts : opener :: ts <:+ script.tokens) (hopener : opener.kind = .opening .brace)
    (h : ReadsBlock script (some opener) ts block rest) : block.IsBraced script := by
  obtain ⟨close, hclose, hkind, hextent⟩ := h.ends_closed
  have hpair := pair_sublist hts (hclose.subset List.mem_cons_self)
  refine ⟨opener, close, hextent ▸ (tokenize_isPlaced script.file htokens).runsBetween hpair,
    isMark_opening htokens (hts.subset List.mem_cons_self) hopener, ?_⟩
  exact isMark_closing htokens (hpair.subset (by simp)) hkind

theorem NamedBlock.IsRead.isOpened {block : NamedBlock} (h : block.IsRead script)
    (hnamed : block.unnamed = false) : block.IsOpened script := by
  cases h with
  | unnamed _ _ => cases hnamed
  | @named t after kind opener inner statements close behind hts hkind hopener _ hread hclose =>
    have hinner : opener :: inner <:+ after := hopener ▸ skipTrivia_suffix after
    have hmem : close ∈ after :=
      (hread.suffix.trans (suffix_of_cons_suffix hinner)).subset List.mem_cons_self
    have hpair := pair_sublist hts hmem
    refine ⟨t, close, (tokenize_isPlaced script.file htokens).runsBetween hpair,
      isKeyword_of_kind htokens (hts.subset List.mem_cons_self) hkind, ?_⟩
    exact isMark_closing htokens (hpair.subset (by simp)) hclose

/-- A function runs from its keyword to the brace that closes its body. -/
theorem ReadsFunction.isDeclared {kind : FunctionKind} {keyword : Token} {ts rest : List Token}
    {f : FunctionDefinition} (hts : keyword :: ts <:+ script.tokens)
    (hkind : keyword.kind = .keyword (.declare kind))
    (h : ReadsFunction script kind keyword ts f rest) : f.IsDeclared script := by
  have hp := tokenize_isPlaced script.file htokens
  cases h with
  | @mk _ _ name ts parameters opener inner body _ _ hparameters _ hbody =>
    have hopener : opener :: inner <:+ name :: ts :=
      (inlineParameters_suffix hparameters).trans (List.suffix_cons _ _)
    obtain ⟨used, close, rfl, hclose, hextent⟩ := hbody.split
    have hmem : close ∈ used ++ close :: rest := List.mem_append_right _ List.mem_cons_self
    have hpair := pair_sublist hts (hopener.subset (List.mem_cons_of_mem _ hmem))
    have hbraces := pair_sublist (hopener.trans (suffix_of_cons_suffix hts)) hmem
    obtain ⟨before, hbefore⟩ := hts
    refine ⟨before, keyword, name, ts, opener, close, hbefore.symm, ?_, rfl, ?_, ?_, ?_⟩
    · exact isKeyword_of_kind htokens (hpair.subset (by simp)) hkind
    · exact functionOf_extent script .. ▸ hp.runsBetween hpair
    · exact hextent ▸ hp.runsBetween hbraces
    · exact isMark_closing htokens (hpair.subset (by simp)) hclose

theorem paramBlock_isClosed {ts after : List Token} {block : ParamBlock} (hts : ts <:+ script.tokens)
    (h : paramBlock script ts = .ok (some block, after)) : block.IsClosed script := by
  obtain ⟨first, more, opener, inner, list, hfirst, hinner, hlist, -, hextent, -⟩ := paramBlock_some h
  obtain ⟨hclose, used, hused⟩ := parameterList_split hlist
  have hmem : list.close ∈ more :=
    hinner.subset (hused ▸ List.mem_append_right _ List.mem_cons_self)
  have hpair := pair_sublist ((hfirst ▸ skipTrivia_suffix ts).trans hts) hmem
  refine ⟨first, list.close, hextent ▸ (tokenize_isPlaced script.file htokens).runsBetween hpair, ?_⟩
  exact isMark_closing htokens (hpair.subset (by simp)) hclose

/-- A node that was read has its edges. -/
theorem Node.IsRead.hasEdges {node : Node} (h : node.IsRead script) : node.HasEdges script := by
  cases node with
  | scriptBlock block =>
    obtain ⟨_, _, _, -, -, hread⟩ := h
    exact hread.hasBody
  | functionDefinition f =>
    obtain ⟨_, _, _, _, hts, hkind, hread⟩ := h
    exact hread.isDeclared htokens hts hkind
  | paramBlock block =>
    obtain ⟨_, _, hts, hread⟩ := h
    exact paramBlock_isClosed htokens hts hread
  | parameter p => trivial
  | namedBlock block => exact fun hnamed => NamedBlock.IsRead.isOpened htokens h hnamed
  | pipeline p => trivial

end Edges

/-- In the tree of a source, functions, parameter blocks and the blocks that keywords open stand between
    the tokens that open and close them, and every script block below the root stands in braces. Every
    script block has one block that no keyword opens, or only blocks that keywords open. -/
theorem parse_node_edges {source : String} {file : Option String} {root : ScriptBlock}
    (h : parse source file = .ok root) : ∃ tokens,
      tokenize (withoutMark source.toList) = .ok tokens ∧
      (∀ node ∈ (Node.scriptBlock root).preorder,
        node.HasEdges ⟨withoutMark source.toList, file, tokens⟩) ∧
      ∀ block, Node.scriptBlock block ∈ (Node.scriptBlock root).preorder.tail →
        block.IsBraced ⟨withoutMark source.toList, file, tokens⟩ := by
  obtain ⟨tokens, htokens, hread⟩ := parse_eq_ok h
  have hbelow := hread.allRead (List.suffix_refl _)
  refine ⟨tokens, htokens, Node.forall_mem_preorder.mpr ⟨hread.hasBody, ?_⟩, ?_⟩
  · intro child hchild node hnode
    exact Node.IsRead.hasEdges htokens (hbelow child hchild node hnode)
  · intro block hblock
    rw [Node.preorder_eq, List.tail_cons] at hblock
    obtain ⟨child, hchild, hnode⟩ := List.mem_flatMap.mp hblock
    obtain ⟨_, _, _, hts, hopener, hbraced⟩ := hbelow child hchild _ hnode
    exact hbraced.isBraced htokens hts hopener

/-- A function with two blocks, in the second of which a script block without named blocks stands. -/
theorem parse_node_edges_filter :
    let source := "param($x)\nFilter f \x7b Begin \x7b\x7d End\n\x7b . \x7b 1 \x7d \x7d \x7d"
    ∃ root, parse source none = .ok root ∧
      ((Node.scriptBlock root).findAll (·.kind = .scriptBlock) true).map (·.extent.text) =
        [source, "\x7b Begin \x7b\x7d End\n\x7b . \x7b 1 \x7d \x7d \x7d", "\x7b 1 \x7d"] ∧
      ((Node.scriptBlock root).findAll (·.kind = .paramBlock) true).map (·.extent.text) = ["param($x)"] ∧
      ((Node.scriptBlock root).functions.flatMap (·.body.namedBlocks)).map
          (fun block => (block.kind, block.unnamed, block.extent.text)) =
        [(.beginBlock, false, "Begin \x7b\x7d"), (.endBlock, false, "End\n\x7b . \x7b 1 \x7d \x7d")] ∧
      ∃ tokens, tokenize (withoutMark source.toList) = .ok tokens ∧
        (∀ node ∈ (Node.scriptBlock root).preorder,
          node.HasEdges ⟨withoutMark source.toList, none, tokens⟩) ∧
        ∀ block, Node.scriptBlock block ∈ (Node.scriptBlock root).preorder.tail →
          block.IsBraced ⟨withoutMark source.toList, none, tokens⟩ := by
  intro source
  obtain ⟨root, h, hnodes⟩ := exists_ok_of_any (x := parse source none)
    (p := fun root =>
      ((Node.scriptBlock root).findAll (·.kind = .scriptBlock) true).map (·.extent.text) =
        [source, "\x7b Begin \x7b\x7d End\n\x7b . \x7b 1 \x7d \x7d \x7d", "\x7b 1 \x7d"] ∧
      ((Node.scriptBlock root).findAll (·.kind = .paramBlock) true).map (·.extent.text) =
        ["param($x)"] ∧
      ((Node.scriptBlock root).functions.flatMap (·.body.namedBlocks)).map
          (fun block => (block.kind, block.unnamed, block.extent.text)) =
        [(.beginBlock, false, "Begin \x7b\x7d"), (.endBlock, false, "End\n\x7b . \x7b 1 \x7d \x7d")])
    (by decide +kernel)
  obtain ⟨hblocks, hparams, hnamed⟩ := of_decide_eq_true hnodes
  exact ⟨root, h, hblocks, hparams, hnamed, parse_node_edges h⟩

end HelpAudit
