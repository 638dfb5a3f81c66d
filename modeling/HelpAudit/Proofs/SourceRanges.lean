import HelpAudit.Proofs.Derivation
import HelpAudit.Proofs.NodeOrder
import HelpAudit.Proofs.LineLookup
import HelpAudit.Proofs.TokenSpans

/-! Where the nodes of a parsed tree stand. Every node has the extent of a stretch of the source, its
    children lie inside it, and each child ends before the next one starts; hence a search lists nodes
    in the order in which they start. The invariant that carries the induction over the grammar is a
    mark between what has been read and what is left: all nodes made so far end before the mark, and
    all tokens left start behind it. -/

namespace HelpAudit

/-- The node says where it stands, with its children inside and in order. -/
structure Node.LaidOut (source : List Char) (file : Option String) (node : Node) : Prop where
  exact : node.extent.IsExact source file
  inside : ∀ child ∈ node.children, node.extent.startOffset ≤ child.extent.startOffset ∧
    child.extent.endOffset ≤ node.extent.endOffset
  ordered : node.children.Pairwise fun a b => a.extent.endOffset ≤ b.extent.startOffset

theorem Statement.node_extent (statement : Statement) : statement.node.extent = statement.extent := by
  cases statement <;> rfl

/-! ### Nodes between two offsets -/

/-- The nodes stand in order between two offsets, and everything below them is laid out. -/
structure Within (script : Script) (lo hi : Nat) (nodes : List Node) : Prop where
  bounds : ∀ node ∈ nodes, lo ≤ node.extent.startOffset ∧ node.extent.endOffset ≤ hi
  laidOut : ∀ node ∈ nodes, ∀ n ∈ node.preorder, n.LaidOut script.source script.file
  ordered : nodes.Pairwise fun a b => a.extent.endOffset ≤ b.extent.startOffset

namespace Within

variable {script : Script} {lo mid hi : Nat} {node : Node} {nodes others : List Node}

theorem nil : Within script lo hi [] :=
  ⟨fun _ h => absurd h List.not_mem_nil, fun _ h => absurd h List.not_mem_nil, .nil⟩

theorem singleton (hlo : lo ≤ node.extent.startOffset) (hhi : node.extent.endOffset ≤ hi)
    (h : ∀ n ∈ node.preorder, n.LaidOut script.source script.file) : Within script lo hi [node] :=
  ⟨by simpa using ⟨hlo, hhi⟩, by simpa using h, List.pairwise_singleton _ node⟩

theorem mono {lo' hi' : Nat} (h : Within script lo hi nodes) (hlo : lo' ≤ lo) (hhi : hi ≤ hi') :
    Within script lo' hi' nodes :=
  ⟨fun node hn => ⟨Nat.le_trans hlo (h.bounds node hn).1, Nat.le_trans (h.bounds node hn).2 hhi⟩,
    h.laidOut, h.ordered⟩

theorem append (h : Within script lo mid nodes) (h' : Within script mid hi others) (hlo : lo ≤ mid)
    (hhi : mid ≤ hi) : Within script lo hi (nodes ++ others) := by
  refine ⟨fun node hn => ?_, fun node hn => ?_, List.pairwise_append.mpr
    ⟨h.ordered, h'.ordered, fun a ha b hb => ?_⟩⟩
  · rcases List.mem_append.mp hn with hn | hn
    · exact (h.mono (Nat.le_refl lo) hhi).bounds node hn
    · exact (h'.mono hlo (Nat.le_refl hi)).bounds node hn
  · rcases List.mem_append.mp hn with hn | hn
    · exact h.laidOut node hn
    · exact h'.laidOut node hn
  · exact Nat.le_trans (h.bounds a ha).2 (h'.bounds b hb).1

theorem exact (h : Within script lo hi nodes) (hn : node ∈ nodes) :
    node.extent.IsExact script.source script.file :=
  (h.laidOut node hn node (by rw [Node.preorder_eq]; exact List.mem_cons_self)).exact

/-- Nodes in order end no later than the last of them. -/
theorem before_last (h : Within script lo hi nodes) (hlast : nodes.getLast? = some node) :
    Within script lo node.extent.endOffset nodes := by
  obtain ⟨front, rfl⟩ := List.getLast?_eq_some_iff.mp hlast
  refine ⟨fun n hn => ⟨(h.bounds n hn).1, ?_⟩, h.laidOut, h.ordered⟩
  rcases List.mem_append.mp hn with hn | hn
  · have hstart := (List.pairwise_append.mp h.ordered).2.2 n hn node List.mem_cons_self
    have := (h.exact (List.mem_append_right front List.mem_cons_self)).ordered
    omega
  · rw [List.mem_singleton.mp hn]

end Within

/-- A node around nodes in order is laid out with all that is below it. -/
theorem laidOut_of_within {script : Script} {lo hi : Nat} {node : Node}
    (hexact : node.extent.IsExact script.source script.file)
    (hlo : node.extent.startOffset ≤ lo) (hhi : hi ≤ node.extent.endOffset)
    (h : Within script lo hi node.children) :
    ∀ n ∈ node.preorder, n.LaidOut script.source script.file := by
  refine Node.forall_mem_preorder.mpr ⟨⟨hexact, fun child hc => ?_, h.ordered⟩, h.laidOut⟩
  exact (h.mono hlo hhi).bounds child hc

/-! ### Tokens behind a mark -/

/-- All the tokens start at or behind the offset. -/
def Above (mark : Nat) (ts : List Token) : Prop := ∀ t ∈ ts, mark ≤ t.start

theorem above_zero (ts : List Token) : Above 0 ts := fun _ _ => Nat.zero_le _

theorem Above.suffix {mark : Nat} {ts rest : List Token} (h : Above mark ts) (hrest : rest <:+ ts) :
    Above mark rest := fun t ht => h t (hrest.subset ht)

theorem Above.head {mark : Nat} {t : Token} {ts : List Token} (h : Above mark (t :: ts)) :
    mark ≤ t.start := h t List.mem_cons_self

theorem Above.tail {mark : Nat} {t : Token} {ts : List Token} (h : Above mark (t :: ts)) :
    Above mark ts := h.suffix (List.suffix_cons t ts)

theorem Above.mono {mark mark' : Nat} {ts : List Token} (h : Above mark ts) (hle : mark' ≤ mark) :
    Above mark' ts := fun t ht => Nat.le_trans hle (h t ht)

section Placed

variable {script : Script} (hp : script.IsPlaced)

include hp

theorem Script.IsPlaced.mem {t : Token} {ts : List Token} (h : t :: ts <:+ script.tokens) :
    t.StandsIn script.source := hp.standsIn t (h.subset List.mem_cons_self)

theorem Script.IsPlaced.above_stop {t : Token} {ts : List Token} (h : t :: ts <:+ script.tokens) :
    Above t.stop ts := by
  have hspaced : Spaced (t :: ts) := hp.spaced.sublist h.sublist
  exact (List.pairwise_cons.mp hspaced).1

theorem Script.IsPlaced.above_start {t : Token} {ts : List Token} (h : t :: ts <:+ script.tokens) :
    Above t.start (t :: ts) := by
  intro u hu
  rcases List.mem_cons.mp hu with rfl | hu
  · exact Nat.le_refl _
  · exact Nat.le_trans (Nat.le_of_lt (hp.mem h).nonempty) (hp.above_stop h u hu)

end Placed

namespace Script

variable {script : Script} {start stop : Nat}

theorem extent_startOffset (h : Text.IsBoundary script.source start) (stop : Nat) :
    (script.extent start stop).startOffset = start :=
  Extent.ofOffsets_startOffset script.file stop h.le_byteLength

theorem extent_endOffset (h : Text.IsBoundary script.source stop) (start : Nat) :
    (script.extent start stop).endOffset = stop :=
  Extent.ofOffsets_endOffset script.file start h.le_byteLength

theorem extent_isExact (hstart : Text.IsBoundary script.source start)
    (hstop : Text.IsBoundary script.source stop) (hle : start ≤ stop) :
    (script.extent start stop).IsExact script.source script.file :=
  Extent.ofOffsets_isExact hstart hstop hle

end Script

/-! ### Parameters -/

/-- Reading a token counts it to the parameter's extent, unless it is trivia. -/
theorem Segment.read_span (script : Script) (segment : Segment) (depth : Nat) (t : Token) :
    (segment.read script depth t).1.span =
      if t.kind.isTrivia then segment.span else (segment.touch t).span := by
  rw [Segment.read]
  cases hkind : t.kind with
  | newline => rfl
  | comment style =>
    simp only [TokenKind.isTrivia, TokenKind.isComment, if_true]
    split <;> rfl
  | opening opener =>
    simp only [TokenKind.isTrivia, TokenKind.isComment, Bool.false_eq_true, if_false]
    split <;> rfl
  | closing closer =>
    simp only [TokenKind.isTrivia, TokenKind.isComment, Bool.false_eq_true, if_false]
    split <;> rfl
  | var =>
    simp only [TokenKind.isTrivia, TokenKind.isComment, Bool.false_eq_true, if_false]
    split <;> rfl
  | equals =>
    simp only [TokenKind.isTrivia, TokenKind.isComment, Bool.false_eq_true, if_false]
    split <;> rfl
  | _ => rfl

/-- What has been read of a parameter stands between the offset and the tokens left. -/
def Segment.Bounded (script : Script) (lo : Nat) (ts : List Token) (segment : Segment) : Prop :=
  ∀ start stop, segment.span = some (start, stop) → lo ≤ start ∧ start ≤ stop ∧
    Text.IsBoundary script.source start ∧ Text.IsBoundary script.source stop ∧ Above stop ts

theorem Segment.bounded_empty (script : Script) (lo : Nat) (ts : List Token) :
    Segment.Bounded script lo ts {} := fun _ _ h => (nomatch h)

/-- Reading a token keeps the span of a segment between the mark and what is left. -/
theorem Segment.Bounded.read {script : Script} (hp : script.IsPlaced) {lo : Nat} {t : Token}
    {ts : List Token} {segment : Segment} (h : segment.Bounded script lo (t :: ts)) (depth : Nat)
    (hts : t :: ts <:+ script.tokens) (hlo : lo ≤ t.start) :
    (segment.read script depth t).1.Bounded script lo ts := by
  intro start stop hspan
  rw [Segment.read_span] at hspan
  split at hspan
  · -- trivia does not belong to the span
    obtain ⟨h1, h2, h3, h4, h5⟩ := h start stop hspan
    exact ⟨h1, h2, h3, h4, h5.suffix (List.suffix_cons t ts)⟩
  · have ht := hp.mem hts
    have hlt := ht.nonempty
    have habove := hp.above_stop hts
    cases hbefore : segment.span with
    | none =>
      simp only [Segment.touch, hbefore, Option.map_none, Option.getD_none, Option.some.injEq,
        Prod.mk.injEq] at hspan
      obtain ⟨rfl, rfl⟩ := hspan
      exact ⟨hlo, Nat.le_of_lt hlt, ht.start_boundary, ht.stop_boundary, habove⟩
    | some span =>
      obtain ⟨first, last⟩ := span
      simp only [Segment.touch, hbefore, Option.map_some, Option.getD_some, Option.some.injEq,
        Prod.mk.injEq] at hspan
      obtain ⟨rfl, rfl⟩ := hspan
      obtain ⟨h1, h2, h3, -, h5⟩ := h first last hbefore
      have := h5 t List.mem_cons_self
      exact ⟨h1, by omega, h3, ht.stop_boundary, habove⟩

/-- The parameter of a segment ends before the next token. -/
theorem Segment.Bounded.within {script : Script} {lo : Nat} {t : Token} {ts : List Token}
    {segment : Segment} (h : segment.Bounded script lo (t :: ts)) :
    Within script lo t.start ((segment.parameter? script).toList.map .parameter) := by
  cases hparameter : segment.parameter? script with
  | none => exact .nil
  | some p =>
    rw [Segment.parameter?] at hparameter
    split at hparameter
    · rename_i start stop _ hspan
      cases hparameter
      obtain ⟨h1, h2, h3, h4, h5⟩ := h start stop hspan
      refine .singleton ?_ ?_ (laidOut_of_within (Script.extent_isExact h3 h4 h2)
        (Nat.le_refl _) (Nat.le_refl _) .nil)
      · exact Nat.le_trans h1 (Nat.le_of_eq (Script.extent_startOffset h3 _).symm)
      · exact Nat.le_trans (Nat.le_of_eq (Script.extent_endOffset h4 _)) (h5 t List.mem_cons_self)
    · cases hparameter

/-- The parameters of a list stand in order before the parenthesis that closes it. -/
theorem parameterList_within {script : Script} (hp : script.IsPlaced) {opener : Token} :
    ∀ {ts : List Token} {lo : Nat} {segment : Segment} {depth : Nat} {list : ParameterList},
    ts <:+ script.tokens → Above lo ts → segment.Bounded script lo ts →
    parameterList script opener segment depth ts = .ok list →
    Within script lo list.close.start (list.parameters.map .parameter)
  | [], _, _, _, _, _, _, _, h => by rw [parameterList] at h; cases h
  | t :: ts, lo, segment, depth, list, hts, hlo, hsegment, h => by
    have hrest : ts <:+ script.tokens := suffix_of_cons_suffix hts
    have hmark : Above t.start ts := (hp.above_start hts).suffix (List.suffix_cons t ts)
    rw [parameterList] at h
    split at h
    · cases h
      exact hsegment.within
    · split at h
      · -- the segment ends at the comma, the others start behind it
        obtain ⟨tail, htail, h⟩ := bind_eq_ok.mp h
        cases h
        rw [List.map_append]
        refine hsegment.within.append (parameterList_within hp hrest hmark
          (Segment.bounded_empty script t.start ts) htail) (hlo t List.mem_cons_self) ?_
        obtain ⟨-, used, rfl⟩ := parameterList_split htail
        exact hmark _ (List.mem_append_right used List.mem_cons_self)
      · exact parameterList_within hp hrest (hlo.suffix (List.suffix_cons t ts))
          (hsegment.read hp depth hts (hlo t List.mem_cons_self)) h

/-! ### The mark along a derivation -/

/-- Reading from `ts` to `rest` makes the nodes: behind every mark before `ts` they stand in order up
    to a mark before `rest`. -/
def Lays (script : Script) (ts : List Token) (nodes : List Node) (rest : List Token) : Prop :=
  ∀ lo, Above lo ts → lo ≤ Text.byteLength script.source →
    ∃ hi, lo ≤ hi ∧ hi ≤ Text.byteLength script.source ∧ Above hi rest ∧ Within script lo hi nodes

/-- A node that starts with a token and ends before the tokens left. -/
structure Stands (script : Script) (first : Token) (node : Node) (rest : List Token) : Prop where
  start : node.extent.startOffset = first.start
  stop : first.stop ≤ node.extent.endOffset
  laidOut : ∀ n ∈ node.preorder, n.LaidOut script.source script.file
  above : Above node.extent.endOffset rest

section Lays

variable {script : Script} {ts mid rest : List Token} {nodes others : List Node}

theorem Lays.skip (h : rest <:+ ts) : Lays script ts [] rest := fun lo hlo hlen =>
  ⟨lo, Nat.le_refl lo, hlen, hlo.suffix h, .nil⟩

theorem Lays.append (h : Lays script ts nodes mid) (h' : Lays script mid others rest) :
    Lays script ts (nodes ++ others) rest := by
  intro lo hlo hlen
  obtain ⟨m, hm, hmlen, habove, hwithin⟩ := h lo hlo hlen
  obtain ⟨hi, hhi, hilen, habove', hwithin'⟩ := h' m habove hmlen
  exact ⟨hi, Nat.le_trans hm hhi, hilen, habove', hwithin.append hwithin' hm hhi⟩

theorem Lays.of_suffix (hmid : mid <:+ ts) (h : Lays script mid nodes rest) :
    Lays script ts nodes rest := (Lays.skip hmid).append h

theorem Lays.ordered (h : Lays script ts nodes rest) :
    nodes.Pairwise fun a b => a.extent.endOffset ≤ b.extent.startOffset := by
  obtain ⟨hi, -, -, -, hwithin⟩ := h 0 (above_zero ts) (Nat.zero_le _)
  exact hwithin.ordered

theorem Stands.exact {first : Token} {node : Node} (h : Stands script first node rest) :
    node.extent.IsExact script.source script.file :=
  (h.laidOut node (by rw [Node.preorder_eq]; exact List.mem_cons_self)).exact

theorem Stands.within {first : Token} {node : Node} {lo : Nat} (h : Stands script first node rest)
    (hlo : lo ≤ first.start) : Within script lo node.extent.endOffset [node] :=
  .singleton (h.start ▸ hlo) (Nat.le_refl _) h.laidOut

theorem Stands.lays_cons {first : Token} {node : Node} (h : Stands script first node mid)
    (h' : Lays script mid others rest) : Lays script (first :: ts) (node :: others) rest := by
  intro lo hlo _
  have hstart := hlo first List.mem_cons_self
  have hordered := h.exact.ordered
  rw [h.start] at hordered
  obtain ⟨hi, hhi, hilen, habove, hwithin⟩ := h' _ h.above h.exact.inside
  exact ⟨hi, by omega, hilen, habove, (h.within hstart).append hwithin (by omega) hhi⟩

theorem Stands.lays {first : Token} {node : Node} (h : Stands script first node rest) :
    Lays script (first :: ts) [node] rest := h.lays_cons (Lays.skip (List.suffix_refl rest))

end Lays

section Grammar

variable {script : Script} (hp : script.IsPlaced)

include hp

/-- A node from one token to a later one, with its children between them. -/
theorem stands_of_lays {first close : Token} {ts rest : List Token} {node : Node}
    (hfirst : first :: ts <:+ script.tokens) (hclose : close :: rest <:+ ts)
    (hextent : node.extent = script.extent first.start close.stop)
    (hchildren : Lays script ts node.children (close :: rest)) : Stands script first node rest := by
  have hf := hp.mem hfirst
  have hrest := hclose.trans (suffix_of_cons_suffix hfirst)
  have hc := hp.mem hrest
  have habove := hp.above_stop hfirst
  have hlt := hf.nonempty
  have hlt' := hc.nonempty
  have hfirstclose := habove close (hclose.subset List.mem_cons_self)
  -- the mark starts at the end of the first token, so the children lie behind it
  obtain ⟨hi, hlo, -, hhi, hwithin⟩ := hchildren first.stop habove hf.stop_boundary.le_byteLength
  have hclosehi := hhi close List.mem_cons_self
  have hstart : node.extent.startOffset = first.start := by
    rw [hextent, Script.extent_startOffset hf.start_boundary]
  have hstop : node.extent.endOffset = close.stop := by
    rw [hextent, Script.extent_endOffset hc.stop_boundary]
  refine ⟨hstart, by omega, laidOut_of_within ?_ ?_ ?_ hwithin, ?_⟩
  · rw [hextent]
    exact Script.extent_isExact hf.start_boundary hc.stop_boundary (by omega)
  · omega
  · omega
  · rw [hstop]
    exact hp.above_stop hrest

theorem parameterList_lays {opener : Token} {ts : List Token} {list : ParameterList}
    (hts : ts <:+ script.tokens) (h : parameterList script opener {} 0 ts = .ok list) :
    Lays script ts (list.parameters.map .parameter) (list.close :: list.rest) := by
  intro lo hlo hlen
  obtain ⟨-, used, rfl⟩ := parameterList_split h
  have hclose := (List.suffix_append used _).trans hts
  exact ⟨list.close.start, hlo _ (List.mem_append_right used List.mem_cons_self),
    (hp.mem hclose).start_boundary.le_byteLength, hp.above_start hclose,
    parameterList_within hp hts hlo (Segment.bounded_empty script lo _) h⟩

theorem inlineParameters_lays {ts after : List Token} {parameters : Option (List Parameter)}
    (hts : ts <:+ script.tokens) (h : inlineParameters script ts = .ok (parameters, after)) :
    Lays script ts ((parameters.getD []).map .parameter) after := by
  rw [inlineParameters] at h
  have hskip := skipTrivia_suffix ts
  split at h
  · rename_i opener inner hopener
    rw [hopener] at hskip
    split at h
    · obtain ⟨list, hlist, h⟩ := bind_eq_ok.mp h
      cases h
      have hinner := suffix_of_cons_suffix hskip
      have hlays := (parameterList_lays hp (hinner.trans hts) hlist).append
        (Lays.skip ((skipTrivia_suffix list.rest).trans (List.suffix_cons _ _)))
      rw [List.append_nil] at hlays
      exact hlays.of_suffix hinner
    · cases h
      exact Lays.skip hskip
  · cases h
    exact Lays.skip List.nil_suffix

theorem paramBlock_lays {ts after : List Token} {params : Option ParamBlock}
    (hts : ts <:+ script.tokens) (h : paramBlock script ts = .ok (params, after)) :
    Lays script ts (params.map .paramBlock).toList after := by
  cases params with
  | none => rw [paramBlock_none h]; exact Lays.skip (List.suffix_refl ts)
  | some block =>
    obtain ⟨first, more, opener, inner, list, hfirst, hinner, hlist, rfl, hextent, hparameters⟩ :=
      paramBlock_some h
    have hskip := skipTrivia_suffix ts
    rw [hfirst] at hskip
    have hmore := suffix_of_cons_suffix (hskip.trans hts)
    have hchildren : Lays script more (Node.paramBlock block).children (list.close :: list.rest) := by
      rw [Node.children, hparameters]
      exact (parameterList_lays hp (hinner.trans hmore) hlist).of_suffix hinner
    obtain ⟨-, used, hused⟩ := parameterList_split hlist
    have hclose : list.close :: list.rest <:+ more :=
      (hused ▸ List.suffix_append used _).trans hinner
    have hstands : Stands script first (.paramBlock block) list.rest :=
      stands_of_lays hp (hskip.trans hts) hclose hextent hchildren
    exact hstands.lays.of_suffix hskip

/-- A body without named blocks reaches from its first token, or from the end of the source when it has
    none, to the end of its last statement. -/
theorem bodyExtent_spec {ts rest : List Token} {statements : List Statement}
    (hts : ts <:+ script.tokens) (h : Lays script ts (statements.map Statement.node) rest) :
    ∃ start stop, bodyExtent script ts statements = script.extent start stop ∧
      Text.IsBoundary script.source start ∧ Text.IsBoundary script.source stop ∧ start ≤ stop ∧
      (ts.head?.map Token.start).getD (Text.byteLength script.source) = start ∧
      Above start ts ∧ Above stop rest ∧ Within script start stop (statements.map Statement.node) := by
  obtain ⟨start, hbody, hboundary, habove⟩ : ∃ start,
      (ts.head?.map Token.start).getD (Text.byteLength script.source) = start ∧
      Text.IsBoundary script.source start ∧ Above start ts := by
    cases ts with
    | nil => exact ⟨_, rfl, Text.isBoundary_byteLength _, fun _ h => absurd h List.not_mem_nil⟩
    | cons t ts => exact ⟨t.start, rfl, (hp.mem hts).start_boundary, hp.above_start hts⟩
  obtain ⟨hi, hhi, -, hrest, hwithin⟩ := h start habove hboundary.le_byteLength
  simp only [bodyExtent, hbody]
  cases hlast : statements.getLast? with
  | none =>
    rw [List.getLast?_eq_none_iff.mp hlast]
    exact ⟨start, start, by rw [Option.map_none, Option.getD_none, Nat.max_self], hboundary, hboundary,
      Nat.le_refl _, rfl, habove, hrest.mono hhi, .nil⟩
  | some last =>
    have hmem : last.node ∈ statements.map Statement.node :=
      List.mem_map_of_mem (List.mem_of_getLast? hlast)
    have hexact := hwithin.exact hmem
    obtain ⟨hlo, hle⟩ := hwithin.bounds last.node hmem
    have hstop := Nat.le_trans hlo hexact.ordered
    -- the last statement ends after all others, so its end bounds them
    have hfit := hwithin.before_last (by rw [List.getLast?_map, hlast]; rfl)
    refine ⟨start, last.node.extent.endOffset, ?_, hboundary, hexact.end_boundary, hstop, rfl, habove,
      hrest.mono hle, hfit⟩
    rw [last.node_extent] at hstop ⊢
    rw [Option.map_some, Option.getD_some, Nat.max_eq_left hstop]

/-- A body without named blocks keeps the mark, as one block. -/
theorem bodyExtent_lays {ts rest : List Token} {statements : List Statement}
    (hts : ts <:+ script.tokens) (h : Lays script ts (statements.map Statement.node) rest) :
    Lays script ts [.namedBlock ⟨.endBlock, true, bodyExtent script ts statements, statements⟩] rest := by
  intro lo hlo hlen
  obtain ⟨start, stop, hextent, hstart, hstop, hle, hfirst, -, habove, hwithin⟩ :=
    bodyExtent_spec hp hts h
  have hlo : lo ≤ start := by
    rw [← hfirst]
    cases ts with
    | nil => exact hlen
    | cons t ts => exact hlo.head
  rw [hextent]
  have hs := Script.extent_startOffset hstart stop
  have he := Script.extent_endOffset hstop start
  refine ⟨stop, by omega, hstop.le_byteLength, habove, .singleton ?_ (Nat.le_of_eq he)
    (laidOut_of_within (Script.extent_isExact hstart hstop hle) (Nat.le_of_eq hs)
      (Nat.le_of_eq he.symm) hwithin)⟩
  exact Nat.le_trans hlo (Nat.le_of_eq hs.symm)

/-- A function stands from its keyword to the end of its body. -/
theorem functionOf_stands {kind : FunctionKind} {keyword name opener : Token}
    {ts inner rest : List Token} {parameters : Option (List Parameter)} {body : ScriptBlock}
    (hts : keyword :: name :: ts <:+ script.tokens)
    (hparameters : inlineParameters script ts = .ok (parameters, opener :: inner))
    (hbody : ReadsBlock script (some opener) inner body rest)
    (hstands : Stands script opener (.scriptBlock body) rest) :
    Stands script keyword (.functionDefinition
      (functionOf script kind keyword name (name :: ts) parameters opener inner body rest)) rest := by
  have hafter := suffix_of_cons_suffix (suffix_of_cons_suffix hts)
  have hopener := (inlineParameters_suffix hparameters).trans hafter
  obtain ⟨used, close, rfl, -, hbodyExtent⟩ := hbody.split
  have hk := hp.mem hts
  have hc := hp.mem ((List.suffix_append used _).trans (suffix_of_cons_suffix hopener))
  have hlt := hk.nonempty
  have hlt' := (hp.mem hopener).nonempty
  have hend : (Node.scriptBlock body).extent.endOffset = close.stop := by
    rw [Node.extent, hbodyExtent, Script.extent_endOffset hc.stop_boundary]
  -- the parameters stand before the brace, the body from the brace on
  obtain ⟨hi, hhi, -, habove, hwithin⟩ := inlineParameters_lays hp hafter hparameters keyword.stop
    (hp.above_stop hts).tail hk.stop_boundary.le_byteLength
  have hbrace := habove.head
  have hreach := hstands.stop
  have hchildren := hwithin.append (hstands.within hbrace) hhi (by omega)
  rw [hend] at hchildren hreach
  have hextent := functionOf_extent script kind keyword name (name :: ts) parameters opener used close
    body rest
  have hstart := Script.extent_startOffset hk.start_boundary close.stop
  have hstop := Script.extent_endOffset hc.stop_boundary keyword.start
  have hexact := Script.extent_isExact hk.start_boundary hc.stop_boundary (by omega)
  rw [← hextent] at hstart hstop hexact
  refine ⟨hstart, ?_, laidOut_of_within hexact ?_ (Nat.le_of_eq hstop.symm) hchildren, ?_⟩
  · exact Nat.le_trans (by omega) (Nat.le_of_eq hstop.symm)
  · exact Nat.le_trans (Nat.le_of_eq hstart) (Nat.le_of_lt hlt)
  · exact (hend ▸ hstands.above).mono (Nat.le_of_eq hstop)

/-- Another statement stands from its first token to the end of its last one. -/
theorem pipeline_stands {t : Token} {ts rest : List Token} {blocks : List ScriptBlock} {stop : Nat}
    (hts : t :: ts <:+ script.tokens) (hstop : t.stop ≤ stop)
    (hboundary : Text.IsBoundary script.source stop) (habove : Above stop rest)
    (hwithin : Within script t.start stop (blocks.map .scriptBlock)) :
    Stands script t (.pipeline ⟨script.extent t.start stop, blocks⟩) rest := by
  have ht := hp.mem hts
  have hlt := ht.nonempty
  have hs := Script.extent_startOffset ht.start_boundary stop
  have he := Script.extent_endOffset hboundary t.start
  refine ⟨hs, Nat.le_trans hstop (Nat.le_of_eq he.symm), laidOut_of_within
    (Script.extent_isExact ht.start_boundary hboundary (by omega)) (Nat.le_of_eq hs)
    (Nat.le_of_eq he.symm) hwithin, habove.mono (Nat.le_of_eq he)⟩

mutual

theorem ReadsBlock.stands_of_brace {opener : Option Token} {ts : List Token} {block : ScriptBlock}
    {rest : List Token} : ReadsBlock script opener ts block rest → ∀ first, opener = some first →
    first :: ts <:+ script.tokens → Stands script first (.scriptBlock block) rest
  | .whole _ _, _, h, _ => nomatch h
  | .braced hparams hbody hclose, _, rfl, hts => by
    have hafter := paramBlock_suffix hparams
    have hskip := (skipSeparators_suffix _).trans hafter
    have htail := suffix_of_cons_suffix hts
    refine stands_of_lays hp hts (hbody.suffix.trans hskip) rfl ?_
    exact (paramBlock_lays hp htail hparams).append
      ((hbody.lays (hskip.trans htail)).of_suffix (skipSeparators_suffix _))

theorem ReadsBody.lays {closing : Bool} {ts : List Token} {blocks : List NamedBlock}
    {rest : List Token} : ReadsBody script closing ts blocks rest → ts <:+ script.tokens →
    Lays script ts (blocks.map .namedBlock) rest
  | .named _ hnamed, hts => hnamed.lays hts
  | .unnamed _ hstatements, hts => bodyExtent_lays hp hts (hstatements.lays hts)

theorem ReadsNamed.lays {closing : Bool} {ts : List Token} {blocks : List NamedBlock}
    {rest : List Token} : ReadsNamed script closing ts blocks rest → ts <:+ script.tokens →
    Lays script ts (blocks.map .namedBlock) rest
  | .finish _, _ => Lays.skip List.nil_suffix
  | .closed hskip _, _ => Lays.skip (suffix_of_skipSeparators hskip)
  | .block hskip _ hopener _ hstatements _ hblocks, hts => by
    have hkeyword := suffix_of_skipSeparators hskip
    have hinner := suffix_of_cons_suffix (hopener ▸ skipTrivia_suffix _)
    have hafter := suffix_of_cons_suffix (hkeyword.trans hts)
    have hlays := (hstatements.lays (hinner.trans hafter)).of_suffix hinner
    have hbehind := suffix_of_cons_suffix (hstatements.suffix.trans (hinner.trans hafter))
    refine Lays.of_suffix hkeyword (Stands.lays_cons ?_ (hblocks.lays hbehind))
    exact stands_of_lays hp (hkeyword.trans hts) (hstatements.suffix.trans hinner) rfl hlays

theorem ReadsStatements.lays {closing : Bool} {ts : List Token} {statements : List Statement}
    {rest : List Token} : ReadsStatements script closing ts statements rest →
    ts <:+ script.tokens → Lays script ts (statements.map Statement.node) rest
  | .finish _, _ => Lays.skip List.nil_suffix
  | .closed hskip _, _ => Lays.skip (suffix_of_skipSeparators hskip)
  | .function hskip _ hfunction hothers, hts => by
    have hkeyword := suffix_of_skipSeparators hskip
    have hstands := hfunction.stands (hkeyword.trans hts)
    have hbehind := hfunction.suffix.trans (suffix_of_cons_suffix (hkeyword.trans hts))
    exact (hstands.lays_cons (hothers.lays hbehind)).of_suffix hkeyword
  | .pipeline hskip hclose _ hpipeline hothers, hts => by
    have hfirst := suffix_of_skipSeparators hskip
    have hall := hfirst.trans hts
    -- the first token is code, so the statement reaches at least to its end
    obtain ⟨-, hboundary, habove, hwithin, hreach⟩ := hpipeline.within hall (hp.above_start hall)
      (above_zero _) (Text.isBoundary_zero _)
    have hcode := isSeparator_of_skipSeparators hskip
    have hstop := hreach _ _ rfl (isTrivia_of_code hcode)
      (not_endsPipeline_of_code hclose hcode 0 false)
    exact Lays.of_suffix hfirst (Stands.lays_cons
      (pipeline_stands hp hall hstop hboundary habove hwithin)
      (hothers.lays (hpipeline.suffix.trans hall)))

theorem ReadsFunction.stands {kind : FunctionKind} {keyword : Token} {ts : List Token}
    {definition : FunctionDefinition} {rest : List Token} :
    ReadsFunction script kind keyword ts definition rest → keyword :: ts <:+ script.tokens →
    Stands script keyword (.functionDefinition definition) rest
  | .mk _ hparameters _ hbody, hts => by
    have hafter := suffix_of_cons_suffix (suffix_of_cons_suffix hts)
    have hopener := (inlineParameters_suffix hparameters).trans hafter
    exact functionOf_stands hp hts hparameters hbody (hbody.stands_of_brace _ rfl hopener)

theorem ReadsPipeline.within {depth : Nat} {afterPipe : Bool} {stop : Nat} {ts : List Token}
    {blocks : List ScriptBlock} {last : Nat} {rest : List Token} :
    ReadsPipeline script depth afterPipe stop ts blocks last rest → ts <:+ script.tokens →
    ∀ {lo}, Above lo ts → Above stop ts → Text.IsBoundary script.source stop →
    stop ≤ last ∧ Text.IsBoundary script.source last ∧ Above last rest ∧
      Within script lo last (blocks.map .scriptBlock) ∧
      ∀ t after, ts = t :: after → t.kind.isTrivia = false → ¬ EndsPipeline depth afterPipe t.kind →
        t.stop ≤ last
  | .finish, _, _, _, hstop, hboundary =>
    ⟨Nat.le_refl _, hboundary, hstop, .nil, fun _ _ h => (nomatch h)⟩
  | .ended hends, _, _, _, hstop, hboundary => by
    refine ⟨Nat.le_refl _, hboundary, hstop, .nil, fun t after h _ hnot => ?_⟩
    cases h
    exact absurd hends hnot
  | .trivia htrivia _ hrest, hts, lo, hlo, hstop, hboundary => by
    obtain ⟨hle, hlast, habove, hwithin, -⟩ := hrest.within (suffix_of_cons_suffix hts)
      hlo.tail hstop.tail hboundary
    refine ⟨hle, hlast, habove, hwithin, fun t after h hcode _ => ?_⟩
    cases h
    rw [htrivia] at hcode
    cases hcode
  | .block hkind hblock hrest, hts, lo, hlo, hstop, _ => by
    have hstands := hblock.stands_of_brace _ rfl hts
    have hfirst := hlo.head
    have hbefore := hstop.head
    have hreach := hstands.stop
    have hlt := (hp.mem hts).nonempty
    obtain ⟨hle, hlast, habove, hwithin, -⟩ := hrest.within
      (hblock.suffix.trans (suffix_of_cons_suffix hts)) hstands.above hstands.above
      hstands.exact.end_boundary
    have hend := Nat.le_trans hreach hle
    refine ⟨by omega, hlast, habove, (hstands.within hfirst).append hwithin (by omega) hle,
      fun t after h _ _ => ?_⟩
    cases h
    omega
  | .hashtable hkind hinner hrest, hts, lo, hlo, hstop, _ => by
    have htail := suffix_of_cons_suffix hts
    have hfirst := hlo.head
    have hbefore := hstop.head
    have hlt := (hp.mem hts).nonempty
    obtain ⟨hreach, hclose, hbehind, hwithin⟩ := hinner.within htail (hp.above_stop hts)
    obtain ⟨hle, hlast, habove, hwithin', -⟩ := hrest.within (hinner.suffix.trans htail) hbehind
      hbehind hclose
    rw [List.map_append]
    refine ⟨by omega, hlast, habove, (hwithin.mono (by omega) (Nat.le_refl _)).append hwithin'
      (by omega) hle, fun t after h _ _ => ?_⟩
    cases h
    omega
  | .token _ _ _ hrest, hts, lo, hlo, hstop, _ => by
    have ht := hp.mem hts
    have hlt := ht.nonempty
    have hbefore := hstop.head
    obtain ⟨hle, hlast, habove, hwithin, -⟩ := hrest.within (suffix_of_cons_suffix hts) hlo.tail
      (hp.above_stop hts) ht.stop_boundary
    refine ⟨by omega, hlast, habove, hwithin, fun t after h _ _ => ?_⟩
    cases h
    exact hle

theorem ReadsHashtable.within {ts : List Token} {blocks : List ScriptBlock} {stop : Nat}
    {rest : List Token} : ReadsHashtable script ts blocks stop rest → ts <:+ script.tokens →
    ∀ {lo}, Above lo ts → lo ≤ stop ∧ Text.IsBoundary script.source stop ∧ Above stop rest ∧
      Within script lo stop (blocks.map .scriptBlock)
  | .closed hkind, hts, lo, hlo => by
    have ht := hp.mem hts
    have hfirst := hlo.head
    have hlt := ht.nonempty
    exact ⟨by omega, ht.stop_boundary, hp.above_stop hts, .nil⟩
  | .block hkind hblock hrest, hts, lo, hlo => by
    have hstands := hblock.stands_of_brace _ rfl hts
    have hbehind := hblock.suffix.trans (suffix_of_cons_suffix hts)
    obtain ⟨hle, hboundary, habove, hwithin⟩ := hrest.within hbehind hstands.above
    have hfirst := hlo.head
    have hordered := hstands.exact.ordered
    rw [hstands.start] at hordered
    exact ⟨by omega, hboundary, habove, (hstands.within hfirst).append hwithin (by omega) hle⟩
  | .nested hkind hinner hrest, hts, lo, hlo => by
    have htail := suffix_of_cons_suffix hts
    obtain ⟨hle, hboundary, habove, hwithin⟩ := hinner.within htail hlo.tail
    obtain ⟨hle', hboundary', habove', hwithin'⟩ := hrest.within (hinner.suffix.trans htail) habove
    rw [List.map_append]
    exact ⟨by omega, hboundary', habove', hwithin.append hwithin' hle hle'⟩
  | .token _ _ hrest, hts, _, hlo => hrest.within (suffix_of_cons_suffix hts) hlo.tail

end

theorem ReadsBlock.laidOut_whole {root : ScriptBlock}
    (h : ReadsBlock script none script.tokens root []) :
    ∀ n ∈ (Node.scriptBlock root).preorder, n.LaidOut script.source script.file := by
  cases h with
  | whole hparams hbody =>
    have hskip := (skipSeparators_suffix _).trans (paramBlock_suffix hparams)
    have hlays := (paramBlock_lays hp (List.suffix_refl _) hparams).append
      ((ReadsBody.lays hp hbody hskip).of_suffix (skipSeparators_suffix _))
    obtain ⟨hi, -, hilen, -, hwithin⟩ := hlays 0 (above_zero _) (Nat.zero_le _)
    have hzero := Text.isBoundary_zero script.source
    have hlen := Text.isBoundary_byteLength script.source
    refine laidOut_of_within (Script.extent_isExact hzero hlen (Nat.zero_le _)) ?_ ?_ hwithin
    · exact Nat.le_of_eq (Script.extent_startOffset hzero _)
    · exact Nat.le_trans hilen (Nat.le_of_eq (Script.extent_endOffset hlen 0).symm)

end Grammar

/-! ### The order of a search -/

/-- Everything below a node lies inside it. -/
theorem inside_of_laidOut {source : List Char} {file : Option String} (node : Node)
    (h : ∀ n ∈ node.preorder, n.LaidOut source file) : ∀ n ∈ node.preorder,
    node.extent.startOffset ≤ n.extent.startOffset ∧ n.extent.endOffset ≤ node.extent.endOffset := by
  induction node using Node.induction_on_children with
  | step node ih =>
    obtain ⟨hnode, hbelow⟩ := Node.forall_mem_preorder.mp h
    refine Node.forall_mem_preorder.mpr ⟨⟨Nat.le_refl _, Nat.le_refl _⟩, fun child hc n hn => ?_⟩
    have hchild := hnode.inside child hc
    have hn := ih child hc (hbelow child hc) n hn
    exact ⟨Nat.le_trans hchild.1 hn.1, Nat.le_trans hn.2 hchild.2⟩

/-- In pre-order, nodes that are laid out come in the order in which they start. -/
theorem preorder_sorted {source : List Char} {file : Option String} (node : Node)
    (h : ∀ n ∈ node.preorder, n.LaidOut source file) :
    node.preorder.Pairwise fun a b => a.extent.startOffset ≤ b.extent.startOffset := by
  induction node using Node.induction_on_children with
  | step node ih =>
    have hinside := inside_of_laidOut node h
    obtain ⟨hnode, hbelow⟩ := Node.forall_mem_preorder.mp h
    rw [Node.preorder_eq] at hinside ⊢
    refine List.pairwise_cons.mpr ⟨fun n hn => (hinside n (List.mem_cons_of_mem _ hn)).1, ?_⟩
    refine List.pairwise_flatMap.mpr ⟨fun child hc => ih child hc (hbelow child hc), ?_⟩
    -- everything below a child starts before the child ends, so before the next one starts
    refine hnode.ordered.imp_of_mem fun {a b} ha hb hab x hx y hy => ?_
    have hxa := inside_of_laidOut a (hbelow a ha) x hx
    have hyb := inside_of_laidOut b (hbelow b hb) y hy
    have hx := (hbelow a ha x hx).exact.ordered
    omega

theorem parse_eq_ok {source : String} {file : Option String} {root : ScriptBlock}
    (h : parse source file = .ok root) : ∃ tokens,
      tokenize (withoutMark source.toList) = .ok tokens ∧
      ReadsBlock ⟨withoutMark source.toList, file, tokens⟩ none tokens root [] := by
  rw [parse] at h
  obtain ⟨tokens, htokens, h⟩ := bind_eq_ok.mp h
  exact ⟨tokens, htokens, readsBlock_of_parseTokens h⟩

/-- Every node of a parsed tree has the exact extent of a stretch of the source and holds its children
    in order; so every search lists nodes in the order in which they start. -/
theorem parse_nodes_laid_out {source : String} {file : Option String} {root : ScriptBlock}
    (h : parse source file = .ok root) :
    (∀ node ∈ (Node.scriptBlock root).preorder, node.LaidOut (withoutMark source.toList) file) ∧
    ∀ (p : Node → Bool) (searchNested : Bool),
      ((Node.scriptBlock root).findAll p searchNested).Pairwise
        fun a b => a.extent.startOffset ≤ b.extent.startOffset := by
  obtain ⟨tokens, htokens, hread⟩ := parse_eq_ok h
  have hlaid := ReadsBlock.laidOut_whole (tokenize_isPlaced file htokens) hread
  refine ⟨hlaid, fun p searchNested => ?_⟩
  refine (preorder_sorted _ hlaid).sublist (List.Sublist.trans List.filter_sublist ?_)
  exact Node.visited_sublist_preorder (.scriptBlock root) searchNested

theorem parse_nodes_laid_out_function : ∃ root,
    parse "\ufefffunction F($a) \x7b\nprocess \x7b 'ü' | % \x7b $a \x7d \x7d\n\x7d" (some "f.ps1") =
      .ok root ∧
    (∀ node ∈ (Node.scriptBlock root).preorder, node.LaidOut
      "function F($a) \x7b\nprocess \x7b 'ü' | % \x7b $a \x7d \x7d\n\x7d".toList (some "f.ps1")) ∧
    ∀ (p : Node → Bool) (searchNested : Bool),
      ((Node.scriptBlock root).findAll p searchNested).Pairwise
        fun a b => a.extent.startOffset ≤ b.extent.startOffset := by
  obtain ⟨root, h⟩ := exists_ok_of_isOk (x :=
    parse "\ufefffunction F($a) \x7b\nprocess \x7b 'ü' | % \x7b $a \x7d \x7d\n\x7d" (some "f.ps1"))
    (by decide +kernel)
  have hmark : withoutMark "\ufefffunction F($a) \x7b\nprocess \x7b 'ü' | % \x7b $a \x7d \x7d\n\x7d".toList =
      "function F($a) \x7b\nprocess \x7b 'ü' | % \x7b $a \x7d \x7d\n\x7d".toList := by decide +kernel
  have hlaid := parse_nodes_laid_out h
  rw [hmark] at hlaid
  exact ⟨root, h, hlaid⟩

end HelpAudit
