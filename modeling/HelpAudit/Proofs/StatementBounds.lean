import Mathlib.Data.List.TakeWhile
import HelpAudit.Proofs.MovedStatements
import HelpAudit.Proofs.ReadNodes

/-! Where statements end. Seen from outside, a statement that is kept as text is a row of units: a script
    block or a hashtable in it counts as its opening brace alone. Outside of parentheses and brackets no
    unit is a semicolon, and a newline only stands behind a pipe; between the statement and the next one
    stand separators, and a newline or a semicolon is among them. The state of the parser, the depth and
    whether the last token was a pipe, is the invariant that is carried along the units. -/

namespace HelpAudit

/-! ### Units -/

/-- Whether a token stands in the script block behind its opening brace. -/
def ScriptBlock.hides (block : ScriptBlock) (t : Token) : Bool :=
  block.extent.startOffset < t.start && t.start < block.extent.endOffset

/-- The tokens, with each of the script blocks as its opening brace. -/
def foldBlocks (blocks : List ScriptBlock) (ts : List Token) : List Token :=
  ts.filter fun t => !blocks.any (·.hides t)

/-- The number of open hashtables behind a token. -/
def tableLevel (level : Nat) (t : Token) : Nat :=
  if t.kind = .opening .atBrace then level + 1
  else if t.kind = .closing .brace then level - 1
  else level

/-- The tokens, with each hashtable as its opening brace; `level` hashtables are open before them. -/
def foldTables : (level : Nat) → List Token → List Token
  | _, [] => []
  | level, t :: ts =>
    if level = 0 then t :: foldTables (tableLevel level t) ts else foldTables (tableLevel level t) ts

/-- The number of open parentheses and brackets behind a unit. A closer without an opener counts for
    nothing. -/
def groupLevel (depth : Nat) (t : Token) : Nat :=
  match t.kind with
  | .opening .brace => depth
  | .opening .atBrace => depth
  | .opening _ => depth + 1
  | .closing .brace => depth
  | .closing _ => depth - 1
  | _ => depth

/-- The last of the tokens that is no newline and no comment is a pipe. -/
def FollowsPipe (before : List Token) : Prop :=
  ∃ front pipe trivia, before = front ++ pipe :: trivia ∧ pipe.kind = .pipe ∧
    ∀ t ∈ trivia, t.kind.isTrivia = true

namespace Pipeline

variable (script : Script) (statement : Pipeline)

/-- The tokens of the statement outside of its script blocks. -/
def outerTokens : List Token :=
  foldBlocks statement.scriptBlocks
    (script.between statement.extent.startOffset statement.extent.endOffset)

/-- The tokens of the statement outside of its script blocks and hashtables. -/
def units : List Token := foldTables 0 (statement.outerTokens script)

/-- Nothing outside of parentheses and brackets ends the statement before its end. -/
structure IsUnbroken : Prop where
  /-- Every hashtable is closed, -/
  tables : (statement.outerTokens script).foldl tableLevel 0 = 0
  /-- and every closing brace belongs to a script block or a hashtable. -/
  braces : ∀ t ∈ statement.units script, t.kind ≠ .closing .brace
  semicolon : ∀ before t after, statement.units script = before ++ t :: after →
    before.foldl groupLevel 0 = 0 → t.kind ≠ .semicolon
  newline : ∀ before t after, statement.units script = before ++ t :: after →
    before.foldl groupLevel 0 = 0 → t.kind = .newline → FollowsPipe before

end Pipeline

/-- Between two statements stand separators alone, and one of them ends the first statement. -/
structure Separated (script : Script) (first next : Statement) : Prop where
  only : ∀ t ∈ script.between first.extent.endOffset next.extent.startOffset, t.kind.isSeparator = true
  ended : ∃ t ∈ script.between first.extent.endOffset next.extent.startOffset,
    t.kind = .newline ∨ t.kind = .semicolon

/-! ### Hashtables as units -/

/-- Folding goes on at the level that the tokens in front leave. -/
theorem foldTables_append : ∀ (level : Nat) (ts more : List Token),
    foldTables level (ts ++ more) = foldTables level ts ++ foldTables (ts.foldl tableLevel level) more
  | _, [], _ => rfl
  | level, t :: ts, more => by
    simp only [List.cons_append, foldTables, List.foldl_cons, foldTables_append (tableLevel level t) ts]
    split <;> rfl

/-- The tokens behind the opening brace of a hashtable, up to its closing one. -/
def IsTable (w : List Token) : Prop :=
  ∀ level, w.foldl tableLevel (level + 1) = level ∧ foldTables (level + 1) w = []

theorem isTable_close {t : Token} (h : t.kind = .closing .brace) : IsTable [t] := by
  intro level
  simp [foldTables, tableLevel, h]

theorem IsTable.cons {t : Token} {w : List Token} (hw : IsTable w) (hopen : t.kind ≠ .opening .atBrace)
    (hclose : t.kind ≠ .closing .brace) : IsTable (t :: w) := by
  intro level
  have hlevel : tableLevel (level + 1) t = level + 1 := by simp [tableLevel, hopen, hclose]
  simp [foldTables, hlevel, hw level]

theorem IsTable.nested {t : Token} {w w' : List Token} (ht : t.kind = .opening .atBrace)
    (hw : IsTable w) (hw' : IsTable w') : IsTable (t :: (w ++ w')) := by
  intro level
  have hlevel : tableLevel (level + 1) t = level + 1 + 1 := by simp [tableLevel, ht]
  simp [foldTables, foldTables_append, hlevel, hw (level + 1), hw' level]

/-- One unit: a token, with a hashtable behind it where it opens one. -/
structure IsUnit (t : Token) (w : List Token) : Prop where
  level : w.foldl tableLevel (tableLevel 0 t) = 0
  hidden : foldTables (tableLevel 0 t) w = []

theorem isUnit_token {t : Token} (h : t.kind ≠ .opening .atBrace) : IsUnit t [] := by
  have hlevel : tableLevel 0 t = 0 := by simp [tableLevel, h]
  exact ⟨hlevel, rfl⟩

theorem isUnit_table {t : Token} {w : List Token} (h : t.kind = .opening .atBrace) (hw : IsTable w) :
    IsUnit t w := by
  have hlevel : tableLevel 0 t = 0 + 1 := by simp [tableLevel, h]
  exact ⟨hlevel ▸ (hw 0).1, hlevel ▸ (hw 0).2⟩

/-! ### Script blocks as units -/

/-- The script block reaches from one of the tokens to one of them. -/
def ScriptBlock.Spans (ts : List Token) (block : ScriptBlock) : Prop :=
  ∃ first ∈ ts, ∃ close ∈ ts, block.extent.startOffset = first.start ∧
    block.extent.endOffset = close.stop

theorem ScriptBlock.Spans.mono {ts ts' : List Token} {block : ScriptBlock} (h : block.Spans ts)
    (hts : ts ⊆ ts') : block.Spans ts' := by
  obtain ⟨first, hfirst, close, hclose, hextent⟩ := h
  exact ⟨first, hts hfirst, close, hts hclose, hextent⟩

/-- Blocks that hide nothing of each other's tokens fold them apart. -/
theorem foldBlocks_append_of_disjoint {front back : List ScriptBlock} {ts ts' : List Token}
    (hfront : ∀ b ∈ front, ∀ t ∈ ts', b.hides t = false)
    (hback : ∀ b ∈ back, ∀ t ∈ ts, b.hides t = false) :
    foldBlocks (front ++ back) (ts ++ ts') = foldBlocks front ts ++ foldBlocks back ts' := by
  rw [foldBlocks, List.filter_append]
  congr 1
  · refine List.filter_congr fun t ht => ?_
    have hnone : back.any (·.hides t) = false :=
      List.any_eq_false.mpr fun b hb => by simp [hback b hb t ht]
    simp [hnone]
  · refine List.filter_congr fun t ht => ?_
    have hnone : front.any (·.hides t) = false :=
      List.any_eq_false.mpr fun b hb => by simp [hfront b hb t ht]
    simp [hnone]

section Placed

variable {script : Script} (hp : script.IsPlaced)

include hp

/-- Script blocks of one stretch of tokens hide nothing of the next one, nor of the one before. -/
theorem foldBlocks_append {front back : List ScriptBlock} {ts ts' rest : List Token}
    (htokens : ts ++ (ts' ++ rest) <:+ script.tokens) (hfront : ∀ b ∈ front, b.Spans ts)
    (hback : ∀ b ∈ back, b.Spans ts') :
    foldBlocks (front ++ back) (ts ++ ts') = foldBlocks front ts ++ foldBlocks back ts' := by
  have hspaced : Spaced (ts ++ (ts' ++ rest)) := hp.spaced.sublist htokens.sublist
  have hapart : ∀ t ∈ ts, ∀ u ∈ ts', t.stop ≤ u.start := fun t ht u hu =>
    (List.pairwise_append.mp hspaced).2.2 t ht u (List.mem_append_left rest hu)
  refine foldBlocks_append_of_disjoint (fun b hb t ht => ?_) fun b hb t ht => ?_
  · obtain ⟨-, -, close, hclose, -, hend⟩ := hfront b hb
    have := hapart close hclose t ht
    simp only [ScriptBlock.hides, hend, Bool.and_eq_false_iff, decide_eq_false_iff_not]
    omega
  · obtain ⟨first, hfirst, -, -, hstart, -⟩ := hback b hb
    have := hapart t ht first hfirst
    have := (hp.standsIn t (htokens.subset (List.mem_append_left _ ht))).nonempty
    simp only [ScriptBlock.hides, hstart, Bool.and_eq_false_iff, decide_eq_false_iff_not]
    omega

/-- A script block in braces hides all its tokens but the first. -/
theorem ReadsBlock.foldBlocks_eq {opener : Token} {ts : List Token} {block : ScriptBlock}
    {rest : List Token} (h : ReadsBlock script (some opener) ts block rest)
    (hts : opener :: ts <:+ script.tokens) :
    ∃ hidden close, ts = hidden ++ close :: rest ∧ block.extent.endOffset = close.stop ∧
      block.Spans (opener :: (hidden ++ [close])) ∧
      foldBlocks [block] (opener :: (hidden ++ [close])) = [opener] := by
  obtain ⟨hidden, close, rfl, -, hextent⟩ := h.split
  have hclose : close :: rest <:+ script.tokens :=
    (List.suffix_append hidden _).trans (suffix_of_cons_suffix hts)
  have hstart : block.extent.startOffset = opener.start := by
    rw [hextent, Script.extent_startOffset (hp.mem hts).start_boundary]
  have hend : block.extent.endOffset = close.stop := by
    rw [hextent, Script.extent_endOffset (hp.mem hclose).stop_boundary]
  refine ⟨hidden, close, rfl, hend, ⟨opener, by simp, close, by simp, hstart, hend⟩, ?_⟩
  -- all tokens behind the brace start inside the block, the closing brace included
  have hinside : ∀ t ∈ hidden ++ [close], opener.start < t.start ∧ t.start < close.stop := by
    intro t ht
    have hopener := (hp.mem hts).nonempty
    have hbehind := hp.above_stop hts
    have hlast := (hp.mem hclose).nonempty
    rcases List.mem_append.mp ht with ht | ht
    · have := hbehind t (List.mem_append_left _ ht)
      obtain ⟨front, hfront⟩ := hts
      have hsplit : (front ++ opener :: hidden) ++ close :: rest = script.tokens := by simp [← hfront]
      have := hp.start_lt hsplit (List.mem_append_right front (List.mem_cons_of_mem opener ht))
      omega
    · have := hbehind close (List.mem_append_right hidden List.mem_cons_self)
      rw [List.mem_singleton.mp ht]
      omega
  have hhidden : foldBlocks [block] (hidden ++ [close]) = [] := by
    refine List.filter_eq_nil_iff.mpr fun t ht => ?_
    simp [ScriptBlock.hides, hstart, hend, hinside t ht]
  calc foldBlocks [block] (opener :: (hidden ++ [close]))
      = opener :: foldBlocks [block] (hidden ++ [close]) :=
        List.filter_cons_of_pos (by simp [ScriptBlock.hides, hstart])
    _ = [opener] := by rw [hhidden]

end Placed

/-! ### Along the units -/

/-- Whether a pipe is the last token behind `t` that is no trivia. -/
def pipeBehind (afterPipe : Bool) (t : Token) : Bool :=
  if t.kind.isTrivia then afterPipe else t.kind = .pipe

/-- Nothing among the tokens ends a statement that has been read up to the given state. -/
structure Unbroken (depth : Nat) (afterPipe : Bool) (outer : List Token) : Prop where
  tables : outer.foldl tableLevel 0 = 0
  braces : ∀ t ∈ foldTables 0 outer, t.kind ≠ .closing .brace
  semicolon : ∀ before t after, foldTables 0 outer = before ++ t :: after →
    before.foldl groupLevel depth = 0 → t.kind ≠ .semicolon
  newline : ∀ before t after, foldTables 0 outer = before ++ t :: after →
    before.foldl groupLevel depth = 0 → t.kind = .newline →
    FollowsPipe before ∨ (afterPipe = true ∧ ∀ u ∈ before, u.kind.isTrivia = true)

theorem unbroken_nil (depth : Nat) (afterPipe : Bool) : Unbroken depth afterPipe [] :=
  ⟨rfl, fun _ h => absurd h List.not_mem_nil, fun _ _ _ h => by simp [foldTables] at h,
    fun _ _ _ h => by simp [foldTables] at h⟩

theorem FollowsPipe.cons {before : List Token} (h : FollowsPipe before) (t : Token) :
    FollowsPipe (t :: before) := by
  obtain ⟨front, pipe, trivia, rfl, hpipe⟩ := h
  exact ⟨t :: front, pipe, trivia, rfl, hpipe⟩

/-- One unit on. -/
theorem Unbroken.cons {depth : Nat} {afterPipe : Bool} {t : Token} {w outer : List Token}
    (h : Unbroken (groupLevel depth t) (pipeBehind afterPipe t) outer) (hunit : IsUnit t w)
    (hclose : t.kind ≠ .closing .brace) (hsemicolon : t.kind = .semicolon → depth ≠ 0)
    (hnewline : t.kind = .newline → depth = 0 → afterPipe = true) :
    Unbroken depth afterPipe (t :: (w ++ outer)) := by
  -- the unit counts as its first token, so the row of units is one longer
  have hunits : foldTables 0 (t :: (w ++ outer)) = t :: foldTables 0 outer := by
    rw [foldTables, if_pos rfl, foldTables_append, hunit.hidden, hunit.level, List.nil_append]
  refine ⟨?_, ?_, fun before u after hsplit hdepth => ?_, fun before u after hsplit hdepth hkind => ?_⟩
  · rw [List.foldl_cons, List.foldl_append, hunit.level, h.tables]
  · rw [hunits]
    exact List.forall_mem_cons.mpr ⟨hclose, h.braces⟩
  · rw [hunits] at hsplit
    cases before with
    | nil =>
      obtain ⟨rfl, -⟩ := List.cons.inj hsplit
      exact fun hkind => hsemicolon hkind hdepth
    | cons _ before =>
      obtain ⟨rfl, hrest⟩ := List.cons.inj hsplit
      exact h.semicolon before u after hrest hdepth
  · rw [hunits] at hsplit
    cases before with
    | nil =>
      obtain ⟨rfl, -⟩ := List.cons.inj hsplit
      exact .inr ⟨hnewline hkind hdepth, fun _ hu => absurd hu List.not_mem_nil⟩
    | cons _ before =>
      obtain ⟨rfl, hrest⟩ := List.cons.inj hsplit
      -- a newline farther on follows a pipe in the row, or trivia since this token
      rcases h.newline before u after hrest hdepth hkind with hpipe | ⟨hpipe, htrivia⟩
      · exact .inl (hpipe.cons t)
      · rw [pipeBehind] at hpipe
        split at hpipe
        · exact .inr ⟨hpipe, List.forall_mem_cons.mpr ⟨‹_›, htrivia⟩⟩
        · exact .inl ⟨[], t, before, rfl, of_decide_eq_true hpipe, htrivia⟩

/-- The offset after the last of the tokens. -/
def lastStop (ts : List Token) : Option Nat := ts.getLast?.map Token.stop

theorem lastStop_append (ts ts' : List Token) :
    lastStop (ts ++ ts') = (lastStop ts').or (lastStop ts) := by
  rw [lastStop, lastStop, lastStop, List.getLast?_append]
  cases ts'.getLast? <;> rfl

theorem lastStop_concat (ts : List Token) (t : Token) : lastStop (ts ++ [t]) = some t.stop := by
  rw [lastStop_append]
  rfl

/-- What a statement has used of its tokens from a state on: it ends with the last of them, its script
    blocks stand in them, and nothing among them ends it. -/
structure Used (depth : Nat) (afterPipe : Bool) (stop : Nat) (blocks : List ScriptBlock) (last : Nat)
    (used : List Token) : Prop where
  last : (lastStop used).getD stop = last
  spans : ∀ b ∈ blocks, b.Spans used
  unbroken : Unbroken depth afterPipe (foldBlocks blocks used)

theorem used_nil (depth : Nat) (afterPipe : Bool) (stop : Nat) : Used depth afterPipe stop [] stop [] :=
  ⟨rfl, fun _ h => absurd h List.not_mem_nil, unbroken_nil depth afterPipe⟩

/-- What a hashtable uses of its tokens behind its opening brace. -/
structure TableUsed (blocks : List ScriptBlock) (stop : Nat) (used : List Token) : Prop where
  last : lastStop used = some stop
  spans : ∀ b ∈ blocks, b.Spans used
  table : IsTable (foldBlocks blocks used)

theorem Used.of_cons {depth : Nat} {afterPipe : Bool} {stop last : Nat} {blocks : List ScriptBlock}
    {t : Token} {used : List Token} (h : Used depth afterPipe stop blocks last (t :: used)) (stop' : Nat) :
    Used depth afterPipe stop' blocks last (t :: used) := by
  refine ⟨?_, h.spans, h.unbroken⟩
  have hlast := h.last
  rwa [lastStop, List.getLast?_cons] at hlast ⊢

theorem TableUsed.last_cons {blocks : List ScriptBlock} {stop : Nat} {used : List Token}
    (h : TableUsed blocks stop used) (t : Token) : lastStop (t :: used) = some stop := by
  have happend := lastStop_append [t] used
  rwa [h.last] at happend

theorem groupLevel_of_trivia {t : Token} (h : t.kind.isTrivia = true) (depth : Nat) :
    groupLevel depth t = depth := by
  cases hkind : t.kind <;> simp_all [groupLevel, TokenKind.isTrivia, TokenKind.isComment]

theorem groupLevel_of_brace {t : Token} (h : OpensBrace t.kind) (depth : Nat) :
    groupLevel depth t = depth := by
  rcases h with hkind | hkind <;> simp [groupLevel, hkind]

theorem pipeBehind_of_brace {t : Token} (h : OpensBrace t.kind) (afterPipe : Bool) :
    pipeBehind afterPipe t = false := by
  rcases h with hkind | hkind <;> simp [pipeBehind, hkind, TokenKind.isTrivia, TokenKind.isComment]

theorem groupLevel_of_not_brace {t : Token} (hopen : ¬ OpensBrace t.kind)
    (hclose : t.kind ≠ .closing .brace) (depth : Nat) : groupLevel depth t = depthAfter t.kind depth := by
  cases hkind : t.kind with
  | opening opener => cases opener <;> simp_all [groupLevel, depthAfter, OpensBrace, TokenKind.opensGroup]
  | closing closer =>
    cases closer <;> simp_all [groupLevel, depthAfter, TokenKind.opensGroup, TokenKind.closesGroup]
  | _ => simp [groupLevel, depthAfter, hkind, TokenKind.opensGroup, TokenKind.closesGroup]

/-! ### What follows a statement -/

/-- A statement goes on to the end, to a closing brace, or to a newline or a semicolon. -/
theorem ReadsPipeline.rest_cases {script : Script} {depth : Nat} {afterPipe : Bool} {stop : Nat}
    {ts : List Token} {blocks : List ScriptBlock} {last : Nat} {rest : List Token}
    (h : ReadsPipeline script depth afterPipe stop ts blocks last rest) :
    rest = [] ∨ ∃ t more, rest = t :: more ∧
      (t.kind = .closing .brace ∨ t.kind = .newline ∨ t.kind = .semicolon) := by
  induction hlength : ts.length using Nat.strong_induction_on
    generalizing depth afterPipe stop ts blocks with
  | _ n ih =>
    subst hlength
    cases h with
    | finish => exact .inl rfl
    | ended hends =>
      refine .inr ⟨_, _, rfl, ?_⟩
      rcases hends with hkind | ⟨hkind, -⟩ | ⟨hkind, -⟩
      · exact .inl hkind
      · exact .inr (.inl hkind)
      · exact .inr (.inr hkind)
    | trivia _ _ hrest => exact ih _ (Nat.lt_succ_self _) hrest rfl
    | block _ hblock hrest => exact ih _ (Nat.lt_succ_of_le hblock.suffix.length_le) hrest rfl
    | hashtable _ hinner hrest => exact ih _ (Nat.lt_succ_of_le hinner.suffix.length_le) hrest rfl
    | token _ _ _ hrest => exact ih _ (Nat.lt_succ_self _) hrest rfl

theorem exists_separators {rest after : List Token} {next : Token}
    (h : skipSeparators rest = next :: after) :
    ∃ seps, rest = seps ++ next :: after ∧ ∀ t ∈ seps, t.kind.isSeparator = true :=
  ⟨rest.takeWhile (·.kind.isSeparator), by rw [← h, skipSeparators, List.takeWhile_append_dropWhile],
    fun _ ht => List.mem_takeWhile_imp (p := fun u : Token => u.kind.isSeparator) ht⟩

/-- A statement that another one follows is ended by a newline or a semicolon. -/
theorem ReadsPipeline.exists_end {script : Script} {depth : Nat} {afterPipe : Bool} {stop : Nat}
    {ts : List Token} {blocks : List ScriptBlock} {last : Nat} {rest seps after : List Token} {next : Token}
    (h : ReadsPipeline script depth afterPipe stop ts blocks last rest)
    (hskip : skipSeparators rest = next :: after) (hnext : next.kind ≠ .closing .brace)
    (hrest : rest = seps ++ next :: after) :
    ∃ t ∈ seps, t.kind = .newline ∨ t.kind = .semicolon := by
  rcases h.rest_cases with rfl | ⟨t, more, rfl, hkind | hkind⟩
  · cases hskip
  · -- a closing brace would be the first token of what follows
    rw [skipSeparators_cons_of_code more (by rw [hkind]; rfl)] at hskip
    obtain ⟨rfl, -⟩ := List.cons.inj hskip
    exact absurd hkind hnext
  · cases seps with
    | nil =>
      obtain ⟨rfl, -⟩ := List.cons.inj hrest
      have hcode := isSeparator_of_skipSeparators hskip
      rcases hkind with hkind | hkind <;> rw [hkind] at hcode <;> cases hcode
    | cons u seps =>
      obtain ⟨rfl, -⟩ := List.cons.inj hrest
      exact ⟨t, List.mem_cons_self, hkind⟩

section Grammar

variable {script : Script} (hp : script.IsPlaced)

include hp

theorem foldBlocks_cons {blocks : List ScriptBlock} {t : Token} {ts rest : List Token}
    (htokens : t :: (ts ++ rest) <:+ script.tokens) (hspans : ∀ b ∈ blocks, b.Spans ts) :
    foldBlocks blocks (t :: ts) = t :: foldBlocks blocks ts :=
  @foldBlocks_append script hp [] blocks [t] ts rest htokens
    (fun _ h => absurd h List.not_mem_nil) hspans

/-- One unit on, with the script blocks that stand in it. -/
theorem Used.cons {depth : Nat} {afterPipe : Bool} {stop stop' last : Nat}
    {inner blocks : List ScriptBlock} {t : Token} {hidden w used rest : List Token}
    (h : Used (groupLevel depth t) (pipeBehind afterPipe t) stop' blocks last used)
    (htokens : t :: hidden ++ (used ++ rest) <:+ script.tokens)
    (hfold : foldBlocks inner (t :: hidden) = t :: w) (hunit : IsUnit t w)
    (hspans : ∀ b ∈ inner, b.Spans (t :: hidden)) (hstop : lastStop (t :: hidden) = some stop')
    (hclose : t.kind ≠ .closing .brace) (hsemicolon : t.kind = .semicolon → depth ≠ 0)
    (hnewline : t.kind = .newline → depth = 0 → afterPipe = true) :
    Used depth afterPipe stop (inner ++ blocks) last (t :: hidden ++ used) := by
  refine ⟨?_, fun b hb => ?_, ?_⟩
  · rw [← h.last, lastStop_append, hstop]
    cases lastStop used <;> rfl
  · rcases List.mem_append.mp hb with hb | hb
    · exact (hspans b hb).mono (List.subset_append_left _ _)
    · exact (h.spans b hb).mono (List.subset_append_right _ _)
  · rw [foldBlocks_append hp htokens hspans h.spans, hfold]
    exact h.unbroken.cons hunit hclose hsemicolon hnewline

/-- A token that is a unit by itself. -/
theorem Used.cons_token {depth : Nat} {afterPipe : Bool} {stop last : Nat} {blocks : List ScriptBlock}
    {t : Token} {used rest : List Token}
    (h : Used (groupLevel depth t) (pipeBehind afterPipe t) t.stop blocks last used)
    (htokens : t :: (used ++ rest) <:+ script.tokens) (hopen : t.kind ≠ .opening .atBrace)
    (hclose : t.kind ≠ .closing .brace) (hsemicolon : t.kind = .semicolon → depth ≠ 0)
    (hnewline : t.kind = .newline → depth = 0 → afterPipe = true) :
    Used depth afterPipe stop blocks last (t :: used) :=
  @Used.cons script hp depth afterPipe stop t.stop last [] blocks t [] [] used rest h htokens rfl
    (isUnit_token hopen) (fun _ h => absurd h List.not_mem_nil) rfl hclose hsemicolon hnewline

/-- Trivia inside of what is used. -/
theorem Used.cons_trivia {depth : Nat} {afterPipe : Bool} {stop last : Nat} {blocks : List ScriptBlock}
    {t u : Token} {used rest : List Token} (h : Used depth afterPipe stop blocks last (u :: used))
    (htokens : t :: (u :: used ++ rest) <:+ script.tokens) (htrivia : t.kind.isTrivia = true)
    (hends : ¬ EndsPipeline depth afterPipe t.kind) :
    Used depth afterPipe stop blocks last (t :: u :: used) := by
  have hcode : ∀ kind, kind.isTrivia = false → t.kind ≠ kind := by
    rintro _ hcode rfl
    cases htrivia.symm.trans hcode
  refine Used.cons_token hp ?_ htokens (hcode _ rfl) (hcode _ rfl)
    (fun hkind => absurd hkind (hcode _ rfl)) fun hkind hdepth => ?_
  · rw [groupLevel_of_trivia htrivia, pipeBehind, if_pos htrivia]
    exact h.of_cons t.stop
  · by_contra hpipe
    exact hends (.inr (.inl ⟨hkind, hdepth, by simpa using hpipe⟩))

theorem TableUsed.append {stop : Nat} {front blocks : List ScriptBlock} {ts used rest : List Token}
    (h : TableUsed blocks stop used) (htokens : ts ++ (used ++ rest) <:+ script.tokens)
    (hspans : ∀ b ∈ front, b.Spans ts)
    (htable : IsTable (foldBlocks front ts ++ foldBlocks blocks used)) :
    TableUsed (front ++ blocks) stop (ts ++ used) := by
  refine ⟨?_, fun b hb => ?_, ?_⟩
  · rw [lastStop_append, h.last]
    rfl
  · rcases List.mem_append.mp hb with hb | hb
    · exact (hspans b hb).mono (List.subset_append_left _ _)
    · exact (h.spans b hb).mono (List.subset_append_right _ _)
  · rwa [foldBlocks_append hp htokens hspans h.spans]

-- The derivations are followed by the length of the tokens left: a unit is taken off in front, and what
-- is behind it is shorter.
/-- What a table uses of its tokens. -/
theorem ReadsHashtable.exists_used {ts : List Token} {blocks : List ScriptBlock} {stop : Nat}
    {rest : List Token} (h : ReadsHashtable script ts blocks stop rest) (hts : ts <:+ script.tokens) :
    ∃ used, ts = used ++ rest ∧ TableUsed blocks stop used := by
  induction hlength : ts.length using Nat.strong_induction_on generalizing ts blocks stop rest with
  | _ n ih =>
    subst hlength
    cases ts with
    | nil => cases h
    | cons t ts =>
      have htail := suffix_of_cons_suffix hts
      cases h with
      | closed hkind =>
        exact ⟨[t], rfl, rfl, fun _ h => absurd h List.not_mem_nil, isTable_close hkind⟩
      | block hkind hblock hrest =>
        have hle := Nat.lt_succ_of_le hblock.suffix.length_le
        have hbehind := hblock.suffix.trans htail
        obtain ⟨hidden, close, rfl, -, hspans, hfold⟩ := hblock.foldBlocks_eq hp hts
        obtain ⟨used, rfl, hused⟩ := ih _ hle hrest hbehind rfl
        have htokens : (t :: (hidden ++ [close])) ++ (used ++ rest) <:+ script.tokens := by
          simpa using hts
        refine ⟨(t :: (hidden ++ [close])) ++ used, by simp, hused.append hp htokens
          (List.forall_mem_singleton.mpr hspans) ?_⟩
        rw [hfold]
        exact hused.table.cons (by simp [hkind]) (by simp [hkind])
      | nested hkind hinner hrest =>
        have hle := Nat.lt_succ_of_le hinner.suffix.length_le
        have hbehind := hinner.suffix.trans htail
        obtain ⟨within, rfl, hwithin⟩ := ih _ (Nat.lt_succ_self _) hinner htail rfl
        obtain ⟨used, rfl, hused⟩ := ih _ hle hrest hbehind rfl
        refine ⟨(t :: within) ++ used, by simp, hused.append hp hts
          (fun b hb => (hwithin.spans b hb).mono (List.subset_cons_self t within)) ?_⟩
        rw [foldBlocks_cons hp hts hwithin.spans]
        exact .nested hkind hwithin.table hused.table
      | token hclose hopen hrest =>
        obtain ⟨used, rfl, hused⟩ := ih _ (Nat.lt_succ_self _) hrest htail rfl
        have hspans : ∀ b ∈ ([] : List ScriptBlock), b.Spans [t] := fun _ h => absurd h List.not_mem_nil
        have htable := hused.table.cons (fun h => hopen (.inr h)) hclose
        exact ⟨[t] ++ used, rfl, hused.append hp hts hspans htable⟩

/-- What a statement uses of its tokens; behind that it passes over trivia alone. -/
theorem ReadsPipeline.exists_used {depth : Nat} {afterPipe : Bool} {stop : Nat} {ts : List Token}
    {blocks : List ScriptBlock} {last : Nat} {rest : List Token}
    (h : ReadsPipeline script depth afterPipe stop ts blocks last rest) (hts : ts <:+ script.tokens) :
    ∃ used idle, ts = used ++ (idle ++ rest) ∧ (∀ t ∈ idle, t.kind.isTrivia = true) ∧
      Used depth afterPipe stop blocks last used := by
  induction hlength : ts.length using Nat.strong_induction_on
    generalizing depth afterPipe stop ts blocks with
  | _ n ih =>
    subst hlength
    cases ts with
    | nil =>
      cases h
      exact ⟨[], [], rfl, fun _ h => absurd h List.not_mem_nil, used_nil depth afterPipe _⟩
    | cons t ts =>
      have htail := suffix_of_cons_suffix hts
      cases h with
      | ended =>
        exact ⟨[], [], rfl, fun _ h => absurd h List.not_mem_nil, used_nil depth afterPipe _⟩
      | trivia htrivia hends hrest =>
        obtain ⟨used, idle, rfl, hidle, hused⟩ := ih _ (Nat.lt_succ_self _) hrest htail rfl
        cases used with
        -- trivia counts as used only if something behind it is
        | nil => exact ⟨[], t :: idle, rfl, List.forall_mem_cons.mpr ⟨htrivia, hidle⟩, hused⟩
        | cons u used => exact ⟨t :: u :: used, idle, rfl, hidle, hused.cons_trivia hp hts htrivia hends⟩
      | block hkind hblock hrest =>
        have hle := Nat.lt_succ_of_le hblock.suffix.length_le
        have hbehind := hblock.suffix.trans htail
        -- the block is one unit, that of its brace, and leaves the state behind a token that is no pipe
        obtain ⟨hidden, close, rfl, hend, hspans, hfold⟩ := hblock.foldBlocks_eq hp hts
        obtain ⟨used, idle, rfl, hidle, hused⟩ := ih _ hle hrest hbehind rfl
        have htokens : (t :: (hidden ++ [close])) ++ (used ++ (idle ++ rest)) <:+ script.tokens := by
          simpa using hts
        refine ⟨(t :: (hidden ++ [close])) ++ used, idle, by simp, hidle, Used.cons hp ?_ htokens hfold
          (isUnit_token (by simp [hkind])) (List.forall_mem_singleton.mpr hspans)
          (lastStop_concat (t :: hidden) close) (by simp [hkind]) (by simp [hkind]) (by simp [hkind])⟩
        rw [← hend, groupLevel_of_brace (.inl hkind), pipeBehind_of_brace (.inl hkind)]
        exact hused
      | hashtable hkind hinner hrest =>
        have hle := Nat.lt_succ_of_le hinner.suffix.length_le
        have hbehind := hinner.suffix.trans htail
        obtain ⟨within, rfl, hwithin⟩ := hinner.exists_used hp htail
        obtain ⟨used, idle, rfl, hidle, hused⟩ := ih _ hle hrest hbehind rfl
        refine ⟨(t :: within) ++ used, idle, by simp, hidle, Used.cons hp ?_ hts
          (foldBlocks_cons hp hts hwithin.spans) (isUnit_table hkind hwithin.table)
          (fun b hb => (hwithin.spans b hb).mono (List.subset_cons_self t within)) (hwithin.last_cons t)
          (by simp [hkind]) (by simp [hkind]) (by simp [hkind])⟩
        rw [groupLevel_of_brace (.inr hkind), pipeBehind_of_brace (.inr hkind)]
        exact hused
      | token htrivia hopen hends hrest =>
        obtain ⟨used, idle, rfl, hidle, hused⟩ := ih _ (Nat.lt_succ_self _) hrest htail rfl
        refine ⟨t :: used, idle, rfl, hidle, Used.cons_token hp ?_ hts ?_ ?_ ?_ ?_⟩
        · rw [groupLevel_of_not_brace hopen (fun h => hends (.inl h)), pipeBehind, htrivia]
          exact hused
        · exact fun hkind => hopen (.inr hkind)
        · exact fun hkind => hends (.inl hkind)
        · exact fun hkind hdepth => hends (.inr (.inr ⟨hkind, hdepth⟩))
        · intro hkind
          rw [hkind] at htrivia
          cases htrivia

/-! ### Statements -/

/-- The tokens of a statement: those that it uses, behind which trivia follows up to what is left. -/
theorem ReadsPipeline.exists_between {t : Token} {ts : List Token} {blocks : List ScriptBlock} {stop : Nat}
    {rest : List Token} (h : ReadsPipeline script 0 false 0 (t :: ts) blocks stop rest)
    (hts : t :: ts <:+ script.tokens) (hcode : t.kind.isSeparator = false)
    (hclose : t.kind ≠ .closing .brace) :
    ∃ idle, (∀ u ∈ idle, u.kind.isTrivia = true) ∧
      t :: ts = script.between t.start stop ++ (idle ++ rest) ∧ Stretch script stop (idle ++ rest) ∧
      Text.IsBoundary script.source stop ∧ Used 0 false 0 blocks stop (script.between t.start stop) := by
  obtain ⟨used, idle, hsplit, hidle, hused⟩ := h.exists_used hp hts
  obtain ⟨-, hboundary, -, -, hreach⟩ := h.within hp hts (above_zero _) (above_zero _)
    (Text.isBoundary_zero _)
  have hstop := hreach t ts rfl (isTrivia_of_code hcode) (not_endsPipeline_of_code hclose hcode 0 false)
  have hlt := (hp.mem hts).nonempty
  -- the statement starts with code, so it uses a token and ends with the last one
  rcases List.eq_nil_or_concat used with rfl | ⟨init, u, rfl⟩
  · have hzero : 0 = stop := hused.last
    omega
  · have hlast : u.stop = stop := by
      have hlast := hused.last
      rwa [List.concat_eq_append, lastStop_concat] at hlast
    rw [List.concat_eq_append] at hsplit hused
    have hu : u :: (idle ++ rest) <:+ script.tokens := by
      refine List.IsSuffix.trans ⟨init, ?_⟩ hts
      rw [hsplit, List.append_assoc, List.singleton_append]
    have hstretch : Stretch script stop (idle ++ rest) := hlast ▸ stretch_of_token hp hu
    have hbetween : script.between t.start stop = init ++ [u] := by
      have habove := hp.above_start hts
      obtain ⟨front, hfront⟩ := hts
      refine hstretch.between_eq (hsplit ▸ hfront) (fun v hv => hp.start_lt hfront hv) fun v hv => ?_
      exact habove v (hsplit ▸ List.mem_append_left _ hv)
    exact ⟨idle, hidle, by rw [hbetween, hsplit], hstretch, hboundary, hbetween ▸ hused⟩

/-- Nothing outside of parentheses and brackets ends a statement before its end. -/
theorem ReadsPipeline.isUnbroken {t : Token} {ts : List Token} {blocks : List ScriptBlock} {stop : Nat}
    {rest : List Token} (h : ReadsPipeline script 0 false 0 (t :: ts) blocks stop rest)
    (hts : t :: ts <:+ script.tokens) (hcode : t.kind.isSeparator = false)
    (hclose : t.kind ≠ .closing .brace) :
    Pipeline.IsUnbroken script ⟨script.extent t.start stop, blocks⟩ := by
  obtain ⟨-, -, -, -, hboundary, hused⟩ := h.exists_between hp hts hcode hclose
  have hstart := Script.extent_startOffset (hp.mem hts).start_boundary stop
  have hstop := Script.extent_endOffset hboundary t.start
  have houter : Pipeline.outerTokens script ⟨script.extent t.start stop, blocks⟩ =
      foldBlocks blocks (script.between t.start stop) := by
    rw [Pipeline.outerTokens, hstart, hstop]
  refine ⟨houter ▸ hused.unbroken.tables, ?_, ?_, ?_⟩
  · rw [Pipeline.units, houter]
    exact hused.unbroken.braces
  · rw [Pipeline.units, houter]
    exact hused.unbroken.semicolon
  · rw [Pipeline.units, houter]
    intro before u after hsplit hdepth hkind
    rcases hused.unbroken.newline before u after hsplit hdepth hkind with hpipe | ⟨hpipe, -⟩
    · exact hpipe
    · cases hpipe

/-- What stands before a token ends before it starts. -/
theorem stretch_before {t : Token} {out : List Token} (ht : t :: out <:+ script.tokens) :
    Stretch script t.start (t :: out) := by
  refine ⟨hp, hp.above_start ht, fun {u ts} hu hout => ?_⟩
  exact hp.above_stop hu t (hout.subset List.mem_cons_self)

/-- The separators behind a statement end it. -/
theorem ReadsPipeline.separated {t next : Token} {ts after : List Token} {blocks : List ScriptBlock}
    {stop : Nat} {rest : List Token} (h : ReadsPipeline script 0 false 0 (t :: ts) blocks stop rest)
    (hts : t :: ts <:+ script.tokens) (hcode : t.kind.isSeparator = false)
    (hclose : t.kind ≠ .closing .brace) (hskip : skipSeparators rest = next :: after)
    (hnext : next.kind ≠ .closing .brace) :
    (∀ u ∈ script.between stop next.start, u.kind.isSeparator = true) ∧
      ∃ u ∈ script.between stop next.start, u.kind = .newline ∨ u.kind = .semicolon := by
  obtain ⟨idle, hidle, hsplit, hstretch, -⟩ := h.exists_between hp hts hcode hclose
  obtain ⟨seps, hrest, hseps⟩ := exists_separators hskip
  -- between the two stand the trivia passed over at the end and the separators skipped then
  have hbetween : script.between stop next.start = idle ++ seps := by
    obtain ⟨front, hfront⟩ := hts
    have htokens : (front ++ script.between t.start stop) ++ ((idle ++ seps) ++ next :: after) =
        script.tokens := by
      rw [← hfront, hsplit, hrest]
      simp only [List.append_assoc]
    refine (stretch_before hp ⟨_, by rw [← htokens, ← List.append_assoc]⟩).between_eq htokens ?_ ?_
    · intro u hu
      obtain ⟨init, more, hmem⟩ := List.append_of_mem hu
      have hsuffix : u :: (more ++ (idle ++ rest)) <:+ script.tokens :=
        ⟨init, by rw [← htokens, hmem, hrest]; simp only [List.append_assoc, List.cons_append]⟩
      have hle := hstretch.below hsuffix (List.suffix_append more _)
      have hlt := (hp.mem hsuffix).nonempty
      omega
    · intro u hu
      refine hstretch.above u ?_
      rw [hrest, ← List.append_assoc]
      exact List.mem_append_left _ hu
  rw [hbetween]
  refine ⟨fun u hu => ?_, ?_⟩
  · rcases List.mem_append.mp hu with hu | hu
    · exact isSeparator_of_isTrivia (hidle u hu)
    · exact hseps u hu
  · obtain ⟨u, hu, hkind⟩ := h.exists_end hskip hnext hrest
    exact ⟨u, List.mem_append_right idle hu, hkind⟩

omit hp in
theorem ReadsStatements.drop {closing : Bool} {front others : List Statement} {ts rest : List Token}
    (h : ReadsStatements script closing ts (front ++ others) rest) (hts : ts <:+ script.tokens) :
    ∃ ts', ts' <:+ script.tokens ∧ ReadsStatements script closing ts' others rest := by
  induction front generalizing ts with
  | nil => exact ⟨ts, hts, h⟩
  | cons first front ih =>
    obtain ⟨behind, hfirst, hothers⟩ := h.exists_first
    exact ih hothers (hfirst.suffix.trans ((skipSeparators_suffix ts).trans hts))

/-- A statement starts with its first token. -/
theorem ReadsStatement.startOffset {t : Token} {ts : List Token} {statement : Statement}
    {rest : List Token} (h : ReadsStatement script (t :: ts) statement rest)
    (hts : t :: ts <:+ script.tokens) : statement.extent.startOffset = t.start := by
  obtain ⟨u, -, -, hextent⟩ := h.exists_last hp hts
  rw [hextent, Script.extent_startOffset (hp.mem hts).start_boundary]

theorem ReadsStatements.separated {closing : Bool} {ts : List Token} {statement : Pipeline}
    {next : Statement} {others : List Statement} {rest : List Token}
    (h : ReadsStatements script closing ts (.pipeline statement :: next :: others) rest)
    (hts : ts <:+ script.tokens) : Separated script (.pipeline statement) next := by
  cases h with
  | @pipeline _ _ t after blocks stop behind _ _ hskip hclose _ hpipeline hothers =>
    have hfirst := (suffix_of_skipSeparators hskip).trans hts
    have hcode := isSeparator_of_skipSeparators hskip
    obtain ⟨_, hnext, -⟩ := hothers.exists_first
    obtain ⟨u, more, hmore⟩ := hnext.exists_head
    rw [hmore] at hnext
    have hu : u :: more <:+ script.tokens :=
      (suffix_of_skipSeparators hmore).trans (hpipeline.suffix.trans hfirst)
    obtain ⟨_, _, _, _, hboundary, _⟩ := hpipeline.exists_between hp hfirst hcode hclose
    have hstop : (Statement.pipeline ⟨script.extent t.start stop, blocks⟩).extent.endOffset = stop :=
      Script.extent_endOffset hboundary t.start
    obtain ⟨honly, hended⟩ := hpipeline.separated hp hfirst hcode hclose hmore hnext.head.2
    rw [← hstop, ← hnext.startOffset hp hu] at honly hended
    exact ⟨honly, hended⟩

end Grammar

theorem NamedBlock.IsRead.exists_statements {script : Script} {block : NamedBlock}
    (h : block.IsRead script) : ∃ closing ts rest, ts <:+ script.tokens ∧
      ReadsStatements script closing ts block.statements rest := by
  cases h with
  | unnamed hts hstatements => exact ⟨_, _, _, hts, hstatements⟩
  | named hkeyword _ hopener _ hstatements _ =>
    have hinner := suffix_of_cons_suffix ((hopener ▸ skipTrivia_suffix _).trans
      (suffix_of_cons_suffix hkeyword))
    exact ⟨_, _, _, hinner, hstatements⟩

/-- In the tree of a source, no statement that is kept as text goes on behind what ends it, and
    separators, a newline or a semicolon among them, stand between it and the next one. -/
theorem parse_statement_bounds {source : String} {file : Option String} {root : ScriptBlock}
    (h : parse source file = .ok root) : ∃ tokens,
      tokenize (withoutMark source.toList) = .ok tokens ∧
      (∀ statement, Node.pipeline statement ∈ (Node.scriptBlock root).preorder →
        statement.IsUnbroken ⟨withoutMark source.toList, file, tokens⟩) ∧
      ∀ block, Node.namedBlock block ∈ (Node.scriptBlock root).preorder →
        ∀ front statement next others,
          block.statements = front ++ .pipeline statement :: next :: others →
          Separated ⟨withoutMark source.toList, file, tokens⟩ (.pipeline statement) next := by
  obtain ⟨tokens, htokens, hread⟩ := parse_eq_ok h
  have hp := tokenize_isPlaced file htokens
  have hall : ∀ n ∈ (Node.scriptBlock root).preorder, n = .scriptBlock root ∨
      n.IsRead ⟨withoutMark source.toList, file, tokens⟩ := Node.forall_mem_preorder.mpr
    ⟨.inl rfl, fun child hchild n hn => .inr (hread.allRead (List.suffix_refl _) child hchild n hn)⟩
  refine ⟨tokens, htokens, fun statement hmem => ?_, ?_⟩
  · rcases hall _ hmem with hroot | ⟨t, ts, blocks, stop, rest, hts, hcode, hclose, hpipeline, rfl⟩
    · cases hroot
    · exact hpipeline.isUnbroken hp hts hcode hclose
  · intro block hmem front statement next others hsplit
    rcases hall _ hmem with hroot | hblock
    · cases hroot
    · obtain ⟨closing, ts, rest, hts, hstatements⟩ := NamedBlock.IsRead.exists_statements hblock
      rw [hsplit] at hstatements
      obtain ⟨ts', hts', hothers⟩ := hstatements.drop hts
      exact hothers.separated hp hts'

/-- Semicolons and newlines inside tables, blocks and parentheses separate nothing. -/
theorem parse_statement_bounds_nested :
    let source := "a |\n% @\x7bx = 1; y = \x7b2; 3\x7d\x7d) ; ($c;\n$d)\ne"
    ∃ root, parse source none = .ok root ∧ root.namedBlocks.map (·.statements.length) = [3] ∧
      ∃ tokens, tokenize (withoutMark source.toList) = .ok tokens ∧
        (∀ statement, Node.pipeline statement ∈ (Node.scriptBlock root).preorder →
          statement.IsUnbroken ⟨withoutMark source.toList, none, tokens⟩) ∧
        ∀ block, Node.namedBlock block ∈ (Node.scriptBlock root).preorder →
          ∀ front statement next others,
            block.statements = front ++ .pipeline statement :: next :: others →
              Separated ⟨withoutMark source.toList, none, tokens⟩ (.pipeline statement) next := by
  intro source
  obtain ⟨root, h, hcount⟩ := exists_ok_of_any (x := parse source none)
    (p := fun root => root.namedBlocks.map (·.statements.length) == [3]) (by decide +kernel)
  exact ⟨root, h, eq_of_beq hcount, parse_statement_bounds h⟩

end HelpAudit
