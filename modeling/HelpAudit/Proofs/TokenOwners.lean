import HelpAudit.Proofs.ReadNodes
import HelpAudit.Proofs.SourceRanges

/-! No code is lost and none is owned twice. Every token between the braces of a script block lies in
    exactly one of its parts, and every token of a named block in exactly one of its statements, unless
    it is a newline, a comment or a semicolon. That no two parts share a token follows from their order;
    that some part holds it is proved along the grammar: reading from `ts` to `rest` covers the tokens
    of `ts` that are not in `rest`. -/

namespace HelpAudit

/-- Whether the token lies in the extent. -/
def Extent.holds (extent : Extent) (t : Token) : Bool :=
  extent.startOffset ≤ t.start && t.stop ≤ extent.endOffset

/-- Every token between the two offsets lies in exactly one of the extents, unless it separates
    statements; what lies in none of them is a newline, a comment or a semicolon. -/
structure OwnedOnce (script : Script) (lo hi : Nat) (extents : List Extent) : Prop where
  once : ∀ t ∈ script.tokens, lo ≤ t.start → t.stop ≤ hi → t.kind.isSeparator = false →
    extents.countP (·.holds t) = 1
  gaps : ∀ t ∈ script.tokens, lo ≤ t.start → t.stop ≤ hi → (∀ e ∈ extents, e.holds t = false) →
    t.kind.isSeparator = true

/-- Two braces of the script, of which the first opens and the second closes. -/
structure Braces (script : Script) (opener close : Token) : Prop where
  opener_mem : opener ∈ script.tokens
  close_mem : close ∈ script.tokens
  opens : opener.kind = .opening .brace
  closes : close.kind = .closing .brace

/-- The extents of the parameter block and the named blocks. -/
def ScriptBlock.parts (block : ScriptBlock) : List Extent :=
  (block.paramBlock.map (·.extent)).toList ++ block.namedBlocks.map (·.extent)

/-- The code between the braces of the block is owned by its parts. -/
def ScriptBlock.OwnsCode (script : Script) (block : ScriptBlock) : Prop :=
  ∃ opener close, Braces script opener close ∧ block.extent.startOffset = opener.start ∧
    block.extent.endOffset = close.stop ∧ OwnedOnce script opener.stop close.start block.parts

/-- The code of an unnamed block, or between the braces of a named one, is owned by its statements. A
    named block has only newlines and comments between its keyword and its opening brace. -/
def NamedBlock.OwnsCode (script : Script) (block : NamedBlock) : Prop :=
  if block.unnamed then
    OwnedOnce script block.extent.startOffset block.extent.endOffset (block.statements.map (·.extent))
  else
    ∃ keyword opener close, Braces script opener close ∧ keyword ∈ script.tokens ∧
      keyword.kind = .keyword (.block block.kind) ∧ block.extent.startOffset = keyword.start ∧
      (∀ t ∈ script.tokens, keyword.stop ≤ t.start → t.stop ≤ opener.start → t.kind.isTrivia = true) ∧
      block.extent.endOffset = close.stop ∧
      OwnedOnce script opener.stop close.start (block.statements.map (·.extent))

/-- A script block or a named block owns the code in it. -/
def Node.OwnsCode (script : Script) : Node → Prop
  | .scriptBlock block => block.OwnsCode script
  | .namedBlock block => block.OwnsCode script
  | _ => True

theorem ScriptBlock.parts_eq (block : ScriptBlock) :
    block.parts = (Node.scriptBlock block).children.map Node.extent := by
  rw [ScriptBlock.parts, Node.children, List.map_append, List.map_map]
  cases block.paramBlock <;> rfl

theorem NamedBlock.statements_eq (block : NamedBlock) :
    block.statements.map (·.extent) = (Node.namedBlock block).children.map Node.extent := by
  rw [Node.children, List.map_map]
  exact List.map_congr_left fun statement _ => statement.node_extent.symm

/-! ### One owner at most -/

/-- Of extents in order only one can hold a token. -/
theorem countP_holds {extents : List Extent} {t : Token} (ht : t.start < t.stop)
    (hordered : extents.Pairwise fun a b => a.endOffset ≤ b.startOffset)
    (hheld : ∃ e ∈ extents, e.holds t = true) : extents.countP (·.holds t) = 1 := by
  induction extents with
  | nil =>
    obtain ⟨e, he, -⟩ := hheld
    exact absurd he List.not_mem_nil
  | cons a extents ih =>
    obtain ⟨hfirst, hordered⟩ := List.pairwise_cons.mp hordered
    by_cases ha : a.holds t = true
    · have hothers : extents.countP (·.holds t) = 0 := by
        refine List.countP_eq_zero.mpr fun b hb hholds => ?_
        have := hfirst b hb
        simp only [Extent.holds, Bool.and_eq_true, decide_eq_true_eq] at ha hholds
        omega
      rw [List.countP_cons_of_pos (p := fun e : Extent => e.holds t) ha, hothers]
    · obtain ⟨e, he, hholds⟩ := hheld
      rcases List.mem_cons.mp he with rfl | he
      · exact absurd hholds ha
      · rw [List.countP_cons_of_neg (p := fun e : Extent => e.holds t) ha, ih hordered ⟨e, he, hholds⟩]

/-! ### Where tokens stand in the list -/

section Places

variable {script : Script} (hp : script.IsPlaced)

include hp

theorem Script.IsPlaced.mem_of_start_le {first t : Token} {ts : List Token}
    (hts : first :: ts <:+ script.tokens) (ht : t ∈ script.tokens) (hle : first.start ≤ t.start) :
    t ∈ first :: ts := by
  obtain ⟨front, hfront⟩ := hts
  rw [← hfront] at ht
  rcases List.mem_append.mp ht with hbefore | hmem
  · have hspaced := hp.spaced
    rw [← hfront] at hspaced
    have hstop := (List.pairwise_append.mp hspaced).2.2 t hbefore first List.mem_cons_self
    have hlt := (hp.standsIn t (hfront ▸ ht)).nonempty
    omega
  · exact hmem

/-- The tokens between two tokens of the script are those behind the first, up to the second. -/
theorem Script.IsPlaced.mem_between {opener close t : Token} {ts rest : List Token}
    (hts : opener :: ts <:+ script.tokens) (hclose : close :: rest <:+ ts) (ht : t ∈ script.tokens)
    (hlo : opener.stop ≤ t.start) (hhi : t.stop ≤ close.start) : t ∈ ts ∧ t ∉ close :: rest := by
  have hlt := (hp.standsIn t ht).nonempty
  have hopener := (hp.mem hts).nonempty
  constructor
  · rcases List.mem_cons.mp (hp.mem_of_start_le hts ht (by omega)) with rfl | hmem
    · omega
    · exact hmem
  · intro hmem
    have := hp.above_start (hclose.trans (suffix_of_cons_suffix hts)) t hmem
    omega

end Places

/-! ### One owner at least -/

/-- Every token that `ts` has before `rest` lies in one of the nodes, unless it separates statements. -/
def Covers (ts : List Token) (nodes : List Node) (rest : List Token) : Prop :=
  ∀ t ∈ ts, t ∉ rest → t.kind.isSeparator = false → ∃ node ∈ nodes, node.extent.holds t = true

theorem Covers.refl (ts : List Token) : Covers ts [] ts := fun _ ht hrest => absurd ht hrest

theorem Covers.append {ts mid rest : List Token} {nodes others : List Node} (h : Covers ts nodes mid)
    (h' : Covers mid others rest) : Covers ts (nodes ++ others) rest := by
  intro t ht hrest hcode
  by_cases hmid : t ∈ mid
  · obtain ⟨node, hn, hholds⟩ := h' t hmid hrest hcode
    exact ⟨node, List.mem_append_right nodes hn, hholds⟩
  · obtain ⟨node, hn, hholds⟩ := h t ht hmid hcode
    exact ⟨node, List.mem_append_left others hn, hholds⟩

theorem Covers.cons {ts mid rest : List Token} {node : Node} {others : List Node}
    (h : Covers ts [node] mid) (h' : Covers mid others rest) : Covers ts (node :: others) rest :=
  h.append h'

theorem mem_of_not_mem_dropWhile {p : Token → Bool} {t : Token} {ts : List Token} (ht : t ∈ ts)
    (h : t ∉ ts.dropWhile p) : p t = true := by
  rw [← List.takeWhile_append_dropWhile (p := p) (l := ts)] at ht
  exact List.all_eq_true.mp List.all_takeWhile t ((List.mem_append.mp ht).resolve_right h)

theorem covers_skipSeparators (ts : List Token) : Covers ts [] (skipSeparators ts) := by
  intro t ht hrest hcode
  have hseparator := mem_of_not_mem_dropWhile ht hrest
  rw [hcode] at hseparator
  cases hseparator

theorem Covers.of_skip {ts mid rest : List Token} {nodes : List Node} (hskip : skipSeparators ts = mid)
    (h : Covers mid nodes rest) : Covers ts nodes rest := by
  have hbefore := covers_skipSeparators ts
  rw [hskip] at hbefore
  exact hbefore.append h

theorem covers_skipTrivia (ts : List Token) : Covers ts [] (skipTrivia ts) := by
  intro t ht hrest hcode
  have htrivia := mem_of_not_mem_dropWhile ht hrest
  rw [isTrivia_of_code hcode] at htrivia
  cases htrivia

/-- A node around nodes that cover some tokens covers them too. -/
theorem Covers.widen {ts rest : List Token} {nodes : List Node} {node : Node} (h : Covers ts nodes rest)
    (hinside : ∀ n ∈ nodes, node.extent.startOffset ≤ n.extent.startOffset ∧
      n.extent.endOffset ≤ node.extent.endOffset) : Covers ts [node] rest := by
  intro t ht hrest hcode
  obtain ⟨n, hn, hholds⟩ := h t ht hrest hcode
  obtain ⟨hlo, hhi⟩ := hinside n hn
  refine ⟨node, List.mem_cons_self, ?_⟩
  simp only [Extent.holds, Bool.and_eq_true, decide_eq_true_eq] at hholds ⊢
  omega

/-- What `ts` has before `rest` ends no later than the offset, trivia aside. -/
def Reaches (ts : List Token) (stop : Nat) (rest : List Token) : Prop :=
  ∀ t ∈ ts, t ∉ rest → t.kind.isTrivia = false → t.stop ≤ stop

theorem Reaches.append {ts mid rest : List Token} {stop last : Nat} (h : Reaches ts stop mid)
    (h' : Reaches mid last rest) (hle : stop ≤ last) : Reaches ts last rest := by
  intro t ht hrest hcode
  by_cases hmid : t ∈ mid
  · exact h' t hmid hrest hcode
  · exact Nat.le_trans (h t ht hmid hcode) hle

section Cover

variable {script : Script} (hp : script.IsPlaced)

include hp

theorem reaches_of_close {close : Token} {ts rest : List Token} (hts : ts <:+ script.tokens)
    (hclose : close :: rest <:+ ts) : Reaches ts close.stop rest := by
  intro t ht hrest _
  have hlt := (hp.mem (hclose.trans hts)).nonempty
  obtain ⟨used, rfl⟩ := hclose
  have hspaced : Spaced (used ++ close :: rest) := hp.spaced.sublist hts.sublist
  rcases List.mem_append.mp ht with hused | hmem
  · have := (List.pairwise_append.mp hspaced).2.2 t hused close List.mem_cons_self
    omega
  · rcases List.mem_cons.mp hmem with rfl | hmem
    · exact Nat.le_refl _
    · exact absurd hmem hrest

theorem covers_of_reaches {first : Token} {ts rest : List Token} {node : Node}
    (hts : first :: ts <:+ script.tokens) (hstart : node.extent.startOffset = first.start)
    (hreach : Reaches (first :: ts) node.extent.endOffset rest) : Covers (first :: ts) [node] rest := by
  intro t ht hrest hcode
  have hlo := hp.above_start hts t ht
  have hhi := hreach t ht hrest (isTrivia_of_code hcode)
  refine ⟨node, List.mem_cons_self, ?_⟩
  simp only [Extent.holds, hstart, Bool.and_eq_true, decide_eq_true_eq]
  exact ⟨hlo, hhi⟩

/-- A node from one token to a later one covers what is between them. -/
theorem covers_of_close {first close : Token} {ts rest : List Token} {node : Node}
    (hts : first :: ts <:+ script.tokens) (hclose : close :: rest <:+ ts)
    (hextent : node.extent = script.extent first.start close.stop) :
    Covers (first :: ts) [node] rest := by
  have hall := hclose.trans (List.suffix_cons first ts)
  refine covers_of_reaches hp hts ?_ ?_
  · rw [hextent, Script.extent_startOffset (hp.mem hts).start_boundary]
  · rw [hextent, Script.extent_endOffset (hp.mem (hall.trans hts)).stop_boundary]
    exact reaches_of_close hp hts hall

theorem paramBlock_covers {ts after : List Token} {params : Option ParamBlock}
    (hts : ts <:+ script.tokens) (h : paramBlock script ts = .ok (params, after)) :
    Covers ts (params.map .paramBlock).toList after := by
  cases params with
  | none => rw [paramBlock_none h]; exact Covers.refl ts
  | some block =>
    obtain ⟨first, more, opener, inner, list, hfirst, hinner, hlist, rfl, hextent, -⟩ :=
      paramBlock_some h
    have hskip := skipTrivia_suffix ts
    have hcovers := covers_skipTrivia ts
    rw [hfirst] at hskip hcovers
    obtain ⟨-, used, hused⟩ := parameterList_split hlist
    have hclose : list.close :: list.rest <:+ more :=
      (hused ▸ List.suffix_append used _).trans hinner
    exact hcovers.append (covers_of_close hp (hskip.trans hts) hclose hextent)

/-- Another statement reaches to the end of the last token read for it that is no trivia. -/
theorem ReadsPipeline.reaches {depth : Nat} {afterPipe : Bool} {stop : Nat} {ts : List Token}
    {blocks : List ScriptBlock} {last : Nat} {rest : List Token} :
    ReadsPipeline script depth afterPipe stop ts blocks last rest → ts <:+ script.tokens →
    Above stop ts → Text.IsBoundary script.source stop → Reaches ts last rest
  | .finish, _, _, _ => fun _ ht => absurd ht List.not_mem_nil
  | .ended _, _, _, _ => fun _ ht hrest => absurd ht hrest
  | .trivia htrivia _ hrest, hts, habove, hboundary => by
    intro u hu hnot hcode
    rcases List.mem_cons.mp hu with rfl | hu
    · rw [htrivia] at hcode
      cases hcode
    · exact hrest.reaches (suffix_of_cons_suffix hts) habove.tail hboundary u hu hnot hcode
  | .block _ hblock hrest, hts, _, _ => by
    have hbehind := hblock.suffix.trans (suffix_of_cons_suffix hts)
    have hstands := hblock.stands_of_brace hp _ rfl hts
    have habove := hstands.above
    have hboundary := hstands.exact.end_boundary
    have hle := (hrest.within hp hbehind habove habove hboundary).1
    refine Reaches.append ?_ (hrest.reaches hbehind habove hboundary) hle
    -- the block reaches to its closing brace, what follows it to the end
    obtain ⟨close, hclose, -, hextent⟩ := hblock.ends_closed
    have hall := hclose.trans (suffix_of_cons_suffix hts)
    rw [hextent, Script.extent_endOffset (hp.mem hall).stop_boundary]
    exact reaches_of_close hp hts (hclose.trans (List.suffix_cons _ _))
  | .hashtable _ hinner hrest, hts, _, _ => by
    have htail := suffix_of_cons_suffix hts
    have hbehind := hinner.suffix.trans htail
    obtain ⟨-, hboundary, habove, -⟩ := hinner.within hp htail (hp.above_stop hts)
    have hle := (hrest.within hp hbehind habove habove hboundary).1
    refine Reaches.append ?_ (hrest.reaches hbehind habove hboundary) hle
    obtain ⟨close, hclose, -, rfl⟩ := hinner.ends_closed
    exact reaches_of_close hp hts (hclose.trans (List.suffix_cons _ _))
  | .token _ _ _ hrest, hts, _, _ => by
    have htail := suffix_of_cons_suffix hts
    have hboundary := (hp.mem hts).stop_boundary
    have habove := hp.above_stop hts
    have hle := (hrest.within hp htail habove habove hboundary).1
    exact (reaches_of_close hp hts (List.suffix_refl _)).append
      (hrest.reaches htail habove hboundary) hle

theorem ReadsPipeline.covers {first : Token} {ts : List Token} {blocks : List ScriptBlock} {stop : Nat}
    {rest : List Token} (h : ReadsPipeline script 0 false 0 (first :: ts) blocks stop rest)
    (hts : first :: ts <:+ script.tokens) :
    Covers (first :: ts) [.pipeline ⟨script.extent first.start stop, blocks⟩] rest := by
  have hzero := Text.isBoundary_zero script.source
  have hstart := Script.extent_startOffset (hp.mem hts).start_boundary
  obtain ⟨-, hlast, -⟩ := h.within hp hts (above_zero _) (above_zero _) hzero
  refine covers_of_reaches hp hts (hstart _) ?_
  simp only [Node.extent]
  rw [Script.extent_endOffset hlast]
  exact h.reaches hp hts (above_zero _) hzero

theorem ReadsStatements.covers {closing : Bool} {ts : List Token} {statements : List Statement}
    {rest : List Token} : ts <:+ script.tokens →
    ReadsStatements script closing ts statements rest →
    Covers ts (statements.map Statement.node) rest
  | _, .finish hskip => hskip ▸ covers_skipSeparators _
  | _, .closed hskip _ => hskip ▸ covers_skipSeparators _
  | hts, .function hskip _ hfunction hothers => by
    have hkeyword := (suffix_of_skipSeparators hskip).trans hts
    have hbehind := hfunction.suffix.trans (suffix_of_cons_suffix hkeyword)
    obtain ⟨close, hclose, -, hextent⟩ := hfunction.ends_closed
    refine Covers.of_skip hskip (Covers.cons ?_ (hothers.covers hbehind))
    exact covers_of_close hp hkeyword hclose hextent
  | hts, .pipeline hskip _ _ hpipeline hothers => by
    have hfirst := (suffix_of_skipSeparators hskip).trans hts
    have hbehind := hpipeline.suffix.trans hfirst
    exact Covers.of_skip hskip ((hpipeline.covers hp hfirst).cons (hothers.covers hbehind))

theorem ReadsNamed.covers {closing : Bool} {ts : List Token} {blocks : List NamedBlock}
    {rest : List Token} : ts <:+ script.tokens → ReadsNamed script closing ts blocks rest →
    Covers ts (blocks.map .namedBlock) rest
  | _, .finish hskip => hskip ▸ covers_skipSeparators _
  | _, .closed hskip _ => hskip ▸ covers_skipSeparators _
  | hts, .block hskip _ hopener _ hstatements _ hblocks => by
    have hkeyword := (suffix_of_skipSeparators hskip).trans hts
    have hinner := suffix_of_cons_suffix (hopener ▸ skipTrivia_suffix _)
    have hclose := hstatements.suffix.trans hinner
    have hbehind := suffix_of_cons_suffix (hclose.trans (suffix_of_cons_suffix hkeyword))
    exact Covers.of_skip hskip ((covers_of_close hp hkeyword hclose rfl).cons (hblocks.covers hbehind))

theorem ReadsBody.covers {closing : Bool} {ts : List Token} {blocks : List NamedBlock}
    {rest : List Token} (h : ReadsBody script closing ts blocks rest) (hts : ts <:+ script.tokens) :
    Covers ts (blocks.map .namedBlock) rest := by
  cases h with
  | named _ hnamed => exact hnamed.covers hp hts
  | unnamed _ hstatements =>
    obtain ⟨start, stop, hextent, hstart, hstop, -, -, -, -, hwithin⟩ :=
      bodyExtent_spec hp hts (hstatements.lays hp hts)
    refine (hstatements.covers hp hts).widen fun n hn => ?_
    obtain ⟨hlo, hhi⟩ := hwithin.bounds n hn
    simp only [Node.extent, hextent]
    rw [Script.extent_startOffset hstart, Script.extent_endOffset hstop]
    exact ⟨hlo, hhi⟩

/-! ### Exactly one owner -/

/-- Nodes in order that cover the tokens between two offsets own each of them once. -/
theorem ownedOnce_of_covers {lo hi : Nat} {ts rest : List Token} {nodes : List Node}
    (hordered : nodes.Pairwise fun a b => a.extent.endOffset ≤ b.extent.startOffset)
    (hcovers : Covers ts nodes rest)
    (hbetween : ∀ t ∈ script.tokens, lo ≤ t.start → t.stop ≤ hi → t ∈ ts ∧ t ∉ rest) :
    OwnedOnce script lo hi (nodes.map Node.extent) := by
  have hheld : ∀ t ∈ script.tokens, lo ≤ t.start → t.stop ≤ hi → t.kind.isSeparator = false →
      ∃ e ∈ nodes.map Node.extent, e.holds t = true := by
    intro t ht hlo hhi hcode
    obtain ⟨hmem, hrest⟩ := hbetween t ht hlo hhi
    obtain ⟨node, hn, hholds⟩ := hcovers t hmem hrest hcode
    exact ⟨node.extent, List.mem_map_of_mem hn, hholds⟩
  refine ⟨fun t ht hlo hhi hcode => ?_, fun t ht hlo hhi hnone => ?_⟩
  · exact countP_holds (hp.standsIn t ht).nonempty (List.pairwise_map.mpr hordered)
      (hheld t ht hlo hhi hcode)
  · by_contra hcode
    obtain ⟨e, he, hholds⟩ := hheld t ht hlo hhi (Bool.eq_false_iff.mpr hcode)
    rw [hnone e he] at hholds
    cases hholds

theorem ReadsBlock.ownedOnce_whole {root : ScriptBlock}
    (h : ReadsBlock script none script.tokens root []) :
    OwnedOnce script 0 (Text.byteLength script.source) root.parts := by
  have hlaid := Node.forall_mem_preorder.mp (h.laidOut_whole hp)
  cases h with
  | whole hparams hbody =>
    have hskip := (skipSeparators_suffix _).trans (paramBlock_suffix hparams)
    rw [ScriptBlock.parts_eq]
    exact ownedOnce_of_covers hp hlaid.1.ordered ((paramBlock_covers hp (List.suffix_refl _)
      hparams).append (Covers.of_skip rfl (hbody.covers hp hskip)))
      fun t ht _ _ => ⟨ht, List.not_mem_nil⟩

/-- The parts of a script block own the code between its braces. -/
theorem ReadsBlock.ownsCode {opener : Token} {ts rest : List Token} {block : ScriptBlock}
    (h : ReadsBlock script (some opener) ts block rest) (hts : opener :: ts <:+ script.tokens)
    (hkind : opener.kind = .opening .brace) : block.OwnsCode script := by
  have htail := suffix_of_cons_suffix hts
  have hlaid := Node.forall_mem_preorder.mp (h.stands_of_brace hp opener rfl hts).laidOut
  cases h with
  | braced hparams hbody hclosing =>
    have hskip := (skipSeparators_suffix _).trans (paramBlock_suffix hparams)
    have hclose := hbody.suffix.trans hskip
    have hall := hclose.trans htail
    refine ⟨opener, _, ⟨hts.subset List.mem_cons_self, hall.subset List.mem_cons_self, hkind,
      hclosing⟩, Script.extent_startOffset (hp.mem hts).start_boundary _,
      Script.extent_endOffset (hp.mem hall).stop_boundary _, ?_⟩
    rw [ScriptBlock.parts_eq]
    exact ownedOnce_of_covers hp hlaid.1.ordered ((paramBlock_covers hp htail hparams).append
      (Covers.of_skip rfl (hbody.covers hp (hskip.trans htail))))
      fun t ht hlo hhi => hp.mem_between hts hclose ht hlo hhi

/-- A body without named blocks holds no token but those between the first one and what is left. -/
theorem mem_between_of_bodyExtent {ts rest : List Token} {statements : List Statement} {t : Token}
    (hts : ts <:+ script.tokens) (h : Lays script ts (statements.map Statement.node) rest)
    (ht : t ∈ script.tokens) (hlo : (bodyExtent script ts statements).startOffset ≤ t.start)
    (hhi : t.stop ≤ (bodyExtent script ts statements).endOffset) : t ∈ ts ∧ t ∉ rest := by
  obtain ⟨start, stop, hextent, hstart, hstop, -, hfirst, -, habove, -⟩ := bodyExtent_spec hp hts h
  rw [hextent, Script.extent_startOffset hstart] at hlo
  rw [hextent, Script.extent_endOffset hstop] at hhi
  have hlt := (hp.standsIn t ht).nonempty
  constructor
  · cases ts with
    | nil =>
      have hend := hstop.le_byteLength
      rw [← hfirst] at hlo
      simp only [List.head?_nil, Option.map_none, Option.getD_none] at hlo
      omega
    | cons first ts => exact hp.mem_of_start_le hts ht (Nat.le_trans (Nat.le_of_eq hfirst) hlo)
  · intro hrest
    have := habove t hrest
    omega

/-- The statements of a named block own its code. -/
theorem NamedBlock.IsRead.ownsCode {block : NamedBlock} (h : block.IsRead script) :
    block.OwnsCode script := by
  cases h with
  | unnamed hts hstatements =>
    have hlays := hstatements.lays hp hts
    rw [NamedBlock.OwnsCode, if_pos rfl, NamedBlock.statements_eq]
    exact ownedOnce_of_covers hp hlays.ordered (hstatements.covers hp hts)
      fun t ht hlo hhi => mem_between_of_bodyExtent hp hts hlays ht hlo hhi
  | @named keyword after kind opener inner statements close behind hts hkind hopener hbrace hstatements
      hclosing =>
    have hafter := suffix_of_cons_suffix hts
    have hskip := skipTrivia_suffix after
    rw [hopener] at hskip
    have hbraces := hskip.trans hafter
    have hinner := suffix_of_cons_suffix hbraces
    have hclose := hstatements.suffix.trans hinner
    rw [NamedBlock.OwnsCode, if_neg Bool.false_ne_true, NamedBlock.statements_eq]
    refine ⟨keyword, opener, close, ⟨hbraces.subset List.mem_cons_self, hclose.subset
      List.mem_cons_self, hbrace, hclosing⟩, hts.subset List.mem_cons_self, hkind,
      Script.extent_startOffset (hp.mem hts).start_boundary _, fun t ht hlo hhi => ?_,
      Script.extent_endOffset (hp.mem hclose).stop_boundary _, ?_⟩
    · -- between the keyword and its brace there is only what was skipped
      obtain ⟨hmem, hrest⟩ := hp.mem_between hts hskip ht hlo hhi
      exact mem_of_not_mem_dropWhile hmem (hopener ▸ hrest)
    · exact ownedOnce_of_covers hp (hstatements.lays hp hinner).ordered
        (hstatements.covers hp hinner)
        fun t ht hlo hhi => hp.mem_between hbraces hstatements.suffix ht hlo hhi

theorem Node.IsRead.ownsCode {node : Node} (h : node.IsRead script) : node.OwnsCode script := by
  cases node with
  | scriptBlock block =>
    obtain ⟨opener, ts, rest, hts, hkind, hblock⟩ := h
    exact hblock.ownsCode hp hts hkind
  | namedBlock block => exact NamedBlock.IsRead.ownsCode hp h
  | _ => exact trivial

end Cover

/-- In a parsed tree, the parts of the root own the code of the whole source, and every script block and
    every named block below it owns the code in it: each token that is no newline, comment or semicolon
    lies in exactly one part, or in exactly one statement. -/
theorem parse_code_owned_once {source : String} {file : Option String} {root : ScriptBlock}
    (h : parse source file = .ok root) : ∃ script : Script,
      script.source = withoutMark source.toList ∧ script.file = file ∧
      tokenize script.source = .ok script.tokens ∧
      OwnedOnce script 0 (Text.byteLength script.source) root.parts ∧
      ∀ child ∈ (Node.scriptBlock root).children, ∀ node ∈ child.preorder, node.OwnsCode script := by
  obtain ⟨tokens, htokens, hread⟩ := parse_eq_ok h
  have hp := tokenize_isPlaced file htokens
  refine ⟨_, rfl, rfl, htokens, hread.ownedOnce_whole hp, fun child hc node hn => ?_⟩
  exact Node.IsRead.ownsCode hp (hread.allRead (List.suffix_refl _) child hc node hn)

theorem parse_code_owned_once_named :
    let source := "param($a = @\x7bk = \x7b1\x7d\x7d) # c\nbegin \x7b 1; 2 | % \x7b 3 \x7d \x7d\n"
    ∃ root, parse source none = .ok root ∧
      ∃ script : Script, script.source = source.toList ∧ script.file = none ∧
        tokenize script.source = .ok script.tokens ∧
        OwnedOnce script 0 (Text.byteLength script.source) root.parts ∧
        ∀ child ∈ (Node.scriptBlock root).children, ∀ node ∈ child.preorder, node.OwnsCode script := by
  intro source
  obtain ⟨root, h⟩ := exists_ok_of_isOk (x := parse source none) (by decide +kernel)
  obtain ⟨script, hsource, howned⟩ := parse_code_owned_once h
  have hmark : withoutMark source.toList = source.toList := by decide +kernel
  exact ⟨root, h, script, hsource.trans hmark, howned⟩

end HelpAudit
