import HelpAudit.Proofs.MovedTokens

/-! A statement at another place. The statements of a block are moved one by one into a second script,
    where a newline follows each of them. A statement other than a function ends with its last token
    that is no trivia, and nothing in it closes it: what is read behind that token depends on the open
    parentheses and on whether the token is a pipe. So the statement is read up to its last token in
    both scripts, in the same state, and there the newline ends it, or the closing brace right behind
    the newline. -/

namespace HelpAudit

/-! ### One statement -/

/-- One statement is read, from its first token on. -/
inductive ReadsStatement (script : Script) : List Token → Statement → List Token → Prop where
  | function {t ts kind definition rest} :
    t.kind = .keyword (.declare kind) →
    ReadsFunction script kind t ts definition rest →
    ReadsStatement script (t :: ts) (.function definition) rest
  | pipeline {t ts blocks stop rest} :
    t.kind.isSeparator = false →
    t.kind ≠ .closing .brace →
    (∀ kind, t.kind ≠ .keyword (.declare kind)) →
    ReadsPipeline script 0 false 0 (t :: ts) blocks stop rest →
    ReadsStatement script (t :: ts) (.pipeline ⟨script.extent t.start stop, blocks⟩) rest

/-- The first token of a statement. -/
theorem ReadsStatement.head {script : Script} {t : Token} {ts : List Token} {statement : Statement}
    {rest : List Token} (h : ReadsStatement script (t :: ts) statement rest) :
    t.kind.isSeparator = false ∧ t.kind ≠ .closing .brace := by
  cases h with
  | function hkind _ => exact ⟨by rw [hkind]; rfl, by simp [hkind]⟩
  | pipeline hcode hclose _ _ => exact ⟨hcode, hclose⟩

theorem ReadsStatement.exists_head {script : Script} {ts : List Token} {statement : Statement}
    {rest : List Token} (h : ReadsStatement script ts statement rest) : ∃ t more, ts = t :: more := by
  cases h with
  | function => exact ⟨_, _, rfl⟩
  | pipeline => exact ⟨_, _, rfl⟩

theorem ReadsStatement.suffix {script : Script} {ts : List Token} {statement : Statement}
    {rest : List Token} (h : ReadsStatement script ts statement rest) : rest <:+ ts := by
  cases h with
  | function _ hfunction => exact hfunction.suffix.trans (List.suffix_cons _ _)
  | pipeline _ _ _ hpipeline => exact hpipeline.suffix

/-- The first of several statements is read behind the separators, the others behind it. -/
theorem ReadsStatements.exists_first {script : Script} {closing : Bool} {ts : List Token}
    {statement : Statement} {statements : List Statement} {rest : List Token}
    (h : ReadsStatements script closing ts (statement :: statements) rest) :
    ∃ behind, ReadsStatement script (skipSeparators ts) statement behind ∧
      ReadsStatements script closing behind statements rest := by
  cases h with
  | function hskip hkind hfunction hothers =>
    rw [hskip]
    exact ⟨_, .function hkind hfunction, hothers⟩
  | pipeline hskip hclose hdeclare hpipeline hothers =>
    have hcode := isSeparator_of_skipSeparators hskip
    rw [hskip]
    exact ⟨_, .pipeline hcode hclose hdeclare hpipeline, hothers⟩

theorem ReadsStatements.cons {script : Script} {closing : Bool} {ts first behind : List Token}
    {statement : Statement} {statements : List Statement} {rest : List Token}
    (hskip : skipSeparators ts = first) (h : ReadsStatement script first statement behind)
    (hothers : ReadsStatements script closing behind statements rest) :
    ReadsStatements script closing ts (statement :: statements) rest := by
  cases h with
  | function hkind hfunction => exact .function hskip hkind hfunction hothers
  | pipeline _ hclose hdeclare hpipeline => exact .pipeline hskip hclose hdeclare hpipeline hothers

/-- Separators in front of statements do not matter. -/
theorem ReadsStatements.of_skip {script : Script} {closing : Bool} {ts ts' : List Token}
    {statements : List Statement} {rest : List Token}
    (h : ReadsStatements script closing ts statements rest)
    (hskip : skipSeparators ts' = skipSeparators ts) :
    ReadsStatements script closing ts' statements rest := by
  cases h with
  | finish hnil => exact .finish (hskip.trans hnil)
  | closed hfirst hclose => exact .closed (hskip.trans hfirst) hclose
  | function hfirst hkind hfunction hothers => exact .function (hskip.trans hfirst) hkind hfunction hothers
  | pipeline hfirst hclose hdeclare hpipeline hothers =>
    exact .pipeline (hskip.trans hfirst) hclose hdeclare hpipeline hothers

/-! ### The last token of a statement -/

section Last

variable {script : Script} (hp : script.IsPlaced)

include hp

/-- A pipeline ends where it was said to end before, or with one of its tokens. -/
theorem ReadsPipeline.exists_last {depth : Nat} {afterPipe : Bool} {stop : Nat} {ts : List Token}
    {blocks : List ScriptBlock} {last : Nat} {rest : List Token} :
    ts <:+ script.tokens → ReadsPipeline script depth afterPipe stop ts blocks last rest →
    last = stop ∨ ∃ t out, t :: out <:+ ts ∧ t.stop = last
  | _, .finish => .inl rfl
  | _, .ended _ => .inl rfl
  | hts, .trivia _ _ hrest => by
    rcases hrest.exists_last (suffix_of_cons_suffix hts) with hlast | ⟨t, out, ht, hlast⟩
    · exact .inl hlast
    · exact .inr ⟨t, out, ht.trans (List.suffix_cons _ _), hlast⟩
  | hts, .block _ hblock hrest => by
    have hbehind := hblock.suffix.trans (suffix_of_cons_suffix hts)
    rcases hrest.exists_last hbehind with hlast | ⟨t, out, ht, hlast⟩
    · -- nothing behind the block counts, so its closing brace is the last token
      obtain ⟨close, hclose, -, hextent⟩ := hblock.ends_closed
      have hall := hclose.trans (suffix_of_cons_suffix hts)
      rw [hextent, Script.extent_endOffset (hp.mem hall).stop_boundary] at hlast
      exact .inr ⟨close, _, hclose.trans (List.suffix_cons _ _), hlast.symm⟩
    · exact .inr ⟨t, out, ht.trans (hblock.suffix.trans (List.suffix_cons _ _)), hlast⟩
  | hts, .hashtable _ hinner hrest => by
    have hbehind := hinner.suffix.trans (suffix_of_cons_suffix hts)
    rcases hrest.exists_last hbehind with hlast | ⟨t, out, ht, hlast⟩
    · obtain ⟨close, hclose, -, hstop⟩ := hinner.ends_closed
      exact .inr ⟨close, _, hclose.trans (List.suffix_cons _ _), (hlast.trans hstop).symm⟩
    · exact .inr ⟨t, out, ht.trans (hinner.suffix.trans (List.suffix_cons _ _)), hlast⟩
  | hts, .token _ _ _ hrest => by
    rcases hrest.exists_last (suffix_of_cons_suffix hts) with hlast | ⟨t, out, ht, hlast⟩
    · exact .inr ⟨_, _, List.suffix_refl _, hlast.symm⟩
    · exact .inr ⟨t, out, ht.trans (List.suffix_cons _ _), hlast⟩

/-- A statement reaches from its first token to a token of it. -/
theorem ReadsStatement.exists_last {t : Token} {ts : List Token} {statement : Statement}
    {rest : List Token} (h : ReadsStatement script (t :: ts) statement rest)
    (hts : t :: ts <:+ script.tokens) :
    ∃ u out, u :: out <:+ t :: ts ∧ statement.extent = script.extent t.start u.stop := by
  cases h with
  | function hkind hfunction =>
    obtain ⟨close, hclose, -, hextent⟩ := hfunction.ends_closed
    exact ⟨close, _, hclose.trans (List.suffix_cons _ _), hextent⟩
  | pipeline hcode hclose hdeclare hpipeline =>
    obtain ⟨-, -, -, -, hreach⟩ :=
      hpipeline.within hp hts (above_zero _) (above_zero _) (Text.isBoundary_zero _)
    have hlast := hreach t ts rfl (isTrivia_of_code hcode) (not_endsPipeline_of_code hclose hcode 0 false)
    have hlt := (hp.mem hts).nonempty
    rcases hpipeline.exists_last hp hts with rfl | ⟨u, out, hu, rfl⟩
    · omega
    · exact ⟨u, out, hu, rfl⟩

/-- Where all tokens left stand behind the last one read, only trivia is passed over. -/
theorem ReadsPipeline.idle {depth : Nat} {afterPipe : Bool} {stop : Nat} {ts : List Token}
    {blocks : List ScriptBlock} {last : Nat} {rest : List Token}
    (h : ReadsPipeline script depth afterPipe stop ts blocks last rest) (hts : ts <:+ script.tokens)
    (hstop : Above stop ts) (hboundary : Text.IsBoundary script.source stop) (hlast : Above last ts) :
    blocks = [] ∧ last = stop ∧
      (rest = [] ∨ ∃ t more, rest = t :: more ∧ EndsPipeline depth afterPipe t.kind) := by
  induction ts generalizing blocks with
  | nil =>
    cases h
    exact ⟨rfl, rfl, .inl rfl⟩
  | cons t ts ih =>
    have hcode := (h.within hp hts hstop hstop hboundary).2.2.2.2 t ts rfl
    have hnot : ¬ t.stop ≤ last := by
      have := hlast.head
      have := (hp.mem hts).nonempty
      omega
    cases h with
    | ended hends => exact ⟨rfl, rfl, .inr ⟨t, ts, rfl, hends⟩⟩
    | trivia _ _ hrest =>
      exact ih hrest (suffix_of_cons_suffix hts) hstop.tail hlast.tail
    | block hkind _ _ => exact absurd (hcode (by rw [hkind]; rfl) (by simp [EndsPipeline, hkind])) hnot
    | hashtable hkind _ _ =>
      exact absurd (hcode (by rw [hkind]; rfl) (by simp [EndsPipeline, hkind])) hnot
    | token htrivia _ hends _ => exact absurd (hcode htrivia hends) hnot

end Last

/-! ### Up to the last token, and behind it -/

/-- What ends with a token of the stretch leaves the whole of what is behind the stretch. -/
theorem Stretch.inside {script : Script} {edge : Nat} {out ts behind : List Token} {close : Token}
    (hs : Stretch script edge out) (hts : ts <:+ script.tokens) (hout : out <:+ ts)
    (hclose : close :: behind <:+ ts) (hle : close.stop ≤ edge) : out <:+ behind := by
  have hlt := (hs.placed.mem (hclose.trans hts)).nonempty
  have hnot : close ∉ out := by
    intro hmem
    have := hs.above close hmem
    omega
  rcases List.suffix_or_suffix_of_suffix hout hclose with h | h
  · rcases List.suffix_cons_iff.mp h with rfl | h
    · exact absurd List.mem_cons_self hnot
    · exact h
  · exact absurd (h.subset List.mem_cons_self) hnot

/-- What ends where the stretch does leaves just what is behind the stretch. -/
theorem Stretch.eq_of_close {script : Script} {edge : Nat} {out behind : List Token} {close : Token}
    (hs : Stretch script edge out) (hclose : close :: behind <:+ script.tokens)
    (hstop : close.stop = edge) (hout : out <:+ behind) : behind = out := by
  obtain ⟨used, rfl⟩ := hout
  cases used with
  | nil => rfl
  | cons t used =>
    have hbehind := suffix_of_cons_suffix hclose
    have hbelow := hs.below hbehind (List.suffix_append used out)
    have habove := (hs.placed.above_stop hclose).head
    have hlt := (hs.placed.mem hbehind).nonempty
    omega

theorem Twin.eq_of_end {a b : Nat} {out out' ts' : List Token} (h : Twin a b out out' out ts') :
    ts' = out' := by
  cases h with
  | ends => rfl
  | cons _ hts => exact absurd hts.suffix (not_cons_suffix _ _)

/-- A script block that ends inside the stretch leaves the whole of what is behind it. -/
theorem ReadsBlock.out_suffix {script : Script} {edge : Nat} {out ts behind : List Token} {t : Token}
    {block : ScriptBlock} (hs : Stretch script edge out)
    (h : ReadsBlock script (some t) ts block behind) (hts : t :: ts <:+ script.tokens)
    (hout : out <:+ ts) (hle : block.extent.endOffset ≤ edge) : out <:+ behind := by
  have htail := suffix_of_cons_suffix hts
  obtain ⟨close, hclose, -, hextent⟩ := h.ends_closed
  rw [hextent, Script.extent_endOffset (hs.placed.mem (hclose.trans htail)).stop_boundary] at hle
  exact hs.inside htail hout hclose hle

theorem ReadsHashtable.out_suffix {script : Script} {edge stop : Nat} {out ts behind : List Token}
    {blocks : List ScriptBlock} (hs : Stretch script edge out)
    (h : ReadsHashtable script ts blocks stop behind) (hts : ts <:+ script.tokens) (hout : out <:+ ts)
    (hle : stop ≤ edge) : out <:+ behind := by
  obtain ⟨close, hclose, -, rfl⟩ := h.ends_closed
  exact hs.inside hts hout hclose hle

section Edge

variable {script script' : Script} (hp' : script'.IsPlaced) {last a b : Nat} {out out' : List Token}
  (hs : Stretch script last out)

include hp' hs

/-- A script block inside the stretch is read up to its closing brace, which ends it at the moved place. -/
theorem ReadsBlock.to_close {t t' : Token} {ts ts' behind : List Token} {block : ScriptBlock}
    (h : ReadsBlock script (some t) ts block behind) (hts : t :: ts <:+ script.tokens)
    (hts' : ts' <:+ script'.tokens) (hle : block.extent.endOffset ≤ last)
    (hkeep : KeepParams script last out' [.scriptBlock block]) (htwin : Twin a b out out' ts ts') :
    ∃ block' behind', ReadsBlock script' (some t') ts' block' behind' ∧
      Twin a b out out' behind behind' ∧ block'.extent.endOffset + a = block.extent.endOffset + b := by
  obtain ⟨block', behind', h', hbehind⟩ :=
    h.twin hs rfl hts (h.out_suffix hs hts htwin.suffix hle) hkeep htwin
  obtain ⟨close, hclose, -, hextent⟩ := h.ends_closed
  obtain ⟨close', hclose', -, hextent'⟩ := h'.ends_closed
  have hall := hclose.trans (suffix_of_cons_suffix hts)
  refine ⟨block', behind', h', hbehind, ?_⟩
  rw [hextent, hextent', Script.extent_endOffset (hs.placed.mem hall).stop_boundary,
    Script.extent_endOffset (hp'.mem (hclose'.trans hts')).stop_boundary]
  exact (htwin.close_moved hclose hclose' hbehind).stop

omit hp' in
/-- A table inside the stretch is read up to its closing brace, which ends it at the moved place. -/
theorem ReadsHashtable.to_close {ts ts' behind : List Token} {blocks : List ScriptBlock} {stop : Nat}
    (h : ReadsHashtable script ts blocks stop behind) (hts : ts <:+ script.tokens) (hle : stop ≤ last)
    (hkeep : KeepParams script last out' (blocks.map .scriptBlock)) (htwin : Twin a b out out' ts ts') :
    ∃ blocks' stop' behind', ReadsHashtable script' ts' blocks' stop' behind' ∧
      Twin a b out out' behind behind' ∧ stop' + a = stop + b := by
  obtain ⟨blocks', stop', behind', h', hbehind⟩ :=
    h.twin hs hts (h.out_suffix hs hts htwin.suffix hle) hkeep htwin
  obtain ⟨close, hclose, -, rfl⟩ := h.ends_closed
  obtain ⟨close', hclose', -, rfl⟩ := h'.ends_closed
  exact ⟨blocks', _, behind', h', hbehind, (htwin.close_moved hclose hclose' hbehind).stop⟩

/-- A statement that ends with the stretch is read in the second script up to the end of the stretch,
    and from there on in whatever way the second script goes on. -/
theorem ReadsPipeline.to_edge (hpipe : ∀ {t}, t :: out <:+ script.tokens → t.kind ≠ .pipe)
    {depth : Nat} {afterPipe : Bool} {stop stop' : Nat} {ts ts' : List Token}
    {blocks : List ScriptBlock} {rest : List Token}
    (h : ReadsPipeline script depth afterPipe stop ts blocks last rest) (hts : ts <:+ script.tokens)
    (hts' : ts' <:+ script'.tokens) (habove : Above stop ts)
    (hboundary : Text.IsBoundary script.source stop)
    (hkeep : KeepParams script last out' (blocks.map .scriptBlock)) (htwin : Twin a b out out' ts ts')
    (hedge : ts = out → afterPipe = false ∧ stop' + a = stop + b) :
    ∃ final blocks' last', last' + a = last + b ∧
      (rest = [] ∨ ∃ t more, rest = t :: more ∧ EndsPipeline final false t.kind) ∧
      ∀ rest', (∀ n, ReadsPipeline script' final false n out' [] n rest') →
        ReadsPipeline script' depth afterPipe stop' ts' blocks' last' rest' := by
  -- what is read behind the stretch stays open as `rest'`, so every case puts its own token in front of it
  have hp := hs.placed
  induction hn : ts.length using Nat.strongRecOn generalizing depth afterPipe stop stop' ts ts' blocks with
  | ind n ih =>
    subst hn
    cases htwin with
    | ends =>
      -- past its last token nothing changes, and the second script goes on from the same state
      obtain ⟨rfl, hstop⟩ := hedge rfl
      obtain ⟨-, hlast, hend⟩ := h.idle hp hts habove hboundary hs.above
      exact ⟨depth, [], stop', by omega, hend, fun rest' hnext => hnext stop'⟩
    | @cons t t' us us' ht hus =>
      have htail := suffix_of_cons_suffix hts
      have htail' := suffix_of_cons_suffix hts'
      have hlt := (hp.mem hts).nonempty
      have hbefore := habove.head
      have hbelow := hs.below hts hus.suffix
      cases h with
      -- it cannot have ended yet, since a token of the stretch is still to come
      | ended hends => omega
      | trivia htrivia hends hrest =>
        -- the stretch does not end with trivia, since it ends where the statement does
        have hinner : us ≠ out := by
          rintro rfl
          obtain ⟨-, hlast, -⟩ := hrest.idle hp htail habove.tail hboundary hs.above
          omega
        obtain ⟨final, blocks', last', hlast', hend, hnext⟩ := ih us.length (Nat.lt_succ_self _)
          hrest htail htail' habove.tail hboundary hkeep hus (fun heq => absurd heq hinner) rfl
        exact ⟨final, blocks', last', hlast', hend, fun rest' hcont =>
          .trivia (ht.kind ▸ htrivia) (ht.kind ▸ hends) (hnext rest' hcont)⟩
      | block hkind hblock hrest =>
        have hstands := hblock.stands_of_brace hp _ rfl hts
        have hbehind := hblock.suffix.trans htail
        -- the block ends within the statement, so its closing brace belongs to the stretch
        have hle := (hrest.within hp hbehind hstands.above hstands.above hstands.exact.end_boundary).1
        obtain ⟨hfirst, hothers⟩ := keepParams_cons.mp hkeep
        obtain ⟨block', behind', hblock', htwin', hstop⟩ :=
          hblock.to_close hp' hs hts htail' hle hfirst hus
        obtain ⟨final, blocks', last', hlast', hend, hnext⟩ := ih _
          (Nat.lt_succ_of_le hblock.suffix.length_le) hrest hbehind (hblock'.suffix.trans htail')
          hstands.above hstands.exact.end_boundary hothers htwin' (fun _ => ⟨rfl, hstop⟩) rfl
        exact ⟨final, _, last', hlast', hend, fun rest' hcont =>
          .block (ht.kind.trans hkind) hblock' (hnext rest' hcont)⟩
      | hashtable hkind hinner hrest =>
        obtain ⟨-, hinside, hbehindAbove, -⟩ := hinner.within hp htail (hp.above_stop hts)
        have hbehind := hinner.suffix.trans htail
        have hle := (hrest.within hp hbehind hbehindAbove hbehindAbove hinside).1
        rw [List.map_append] at hkeep
        obtain ⟨hfirst, hothers⟩ := keepParams_append.mp hkeep
        obtain ⟨inner', close', behind', hinner', htwin', hstop⟩ :=
          hinner.to_close hs htail hle hfirst hus
        obtain ⟨final, blocks', last', hlast', hend, hnext⟩ := ih _
          (Nat.lt_succ_of_le hinner.suffix.length_le) hrest hbehind (hinner'.suffix.trans htail')
          hbehindAbove hinside hothers htwin' (fun _ => ⟨rfl, hstop⟩) rfl
        exact ⟨final, _, last', hlast', hend, fun rest' hcont =>
          .hashtable (ht.kind.trans hkind) hinner' (hnext rest' hcont)⟩
      | token htrivia hbrace hends hrest =>
        -- the last token of the stretch is no pipe, so the next line does not continue the statement
        have hstate : us = out → decide (t.kind = .pipe) = false ∧ t'.stop + a = t.stop + b := by
          rintro rfl
          exact ⟨decide_eq_false (hpipe hts), ht.stop⟩
        obtain ⟨final, blocks', last', hlast', hend, hnext⟩ := ih us.length (Nat.lt_succ_self _)
          hrest htail htail' (hp.above_stop hts) (hp.mem hts).stop_boundary hkeep hus hstate rfl
        refine ⟨final, blocks', last', hlast', hend, fun rest' hcont => ?_⟩
        rw [← ht.kind] at htrivia hbrace hends hnext
        exact .token htrivia hbrace hends (hnext rest' hcont)

end Edge

/-! ### A newline behind the statement -/

theorem skipSeparators_feed {feed : Token} (h : feed.kind = .newline) (ts : List Token) :
    skipSeparators (feed :: ts) = skipSeparators ts := by
  rw [skipSeparators, List.dropWhile_cons, h]
  rfl

/-- In front of another statement no parenthesis is left open. -/
theorem depth_eq_zero_of_next {depth : Nat} {rest : List Token}
    (hend : rest = [] ∨ ∃ t more, rest = t :: more ∧ EndsPipeline depth false t.kind)
    (hnext : ∃ t more, skipSeparators rest = t :: more ∧ t.kind ≠ .closing .brace) : depth = 0 := by
  obtain ⟨u, others, hskip, hother⟩ := hnext
  rcases hend with rfl | ⟨t, more, rfl, hclose | ⟨-, hdepth, -⟩ | ⟨-, hdepth⟩⟩
  · cases hskip
  · rw [skipSeparators, List.dropWhile_cons, hclose] at hskip
    cases hskip
    exact absurd hclose hother
  · exact hdepth
  · exact hdepth

/-- A newline ends a statement, alone or together with a closing brace behind it. -/
theorem ReadsPipeline.ends_at_feed (script : Script) {depth : Nat} {feed : Token} {next : List Token}
    (hfeed : feed.kind = .newline)
    (h : depth = 0 ∨ ∃ close more, next = close :: more ∧ close.kind = .closing .brace) :
    ∃ rest, skipSeparators rest = skipSeparators next ∧
      ∀ n, ReadsPipeline script depth false n (feed :: next) [] n rest := by
  by_cases hdepth : depth = 0
  · exact ⟨feed :: next, skipSeparators_feed hfeed next, fun n =>
      .ended (.inr (.inl ⟨hfeed, hdepth, rfl⟩))⟩
  · obtain ⟨close, more, rfl, hclose⟩ := h.resolve_left hdepth
    refine ⟨close :: more, rfl, fun n => .trivia ?_ ?_ (.ended (.inl hclose))⟩
    · rw [hfeed]
      rfl
    · simp [EndsPipeline, hfeed, hdepth]

section Feed

variable {script script' : Script} (hp' : script'.IsPlaced) {a b edge : Nat}
  {ts ts' out behind next : List Token} {t t' feed : Token} (hs : Stretch script edge out)
  (hts : t :: ts <:+ script.tokens) (hout : out <:+ ts) (hfeed : feed.kind = .newline)

include hs hts hout hfeed

/-- A function that ends with the stretch is read in front of a newline as it was read before. -/
theorem ReadsFunction.before_feed {kind : FunctionKind} {definition : FunctionDefinition}
    (h : ReadsFunction script kind t ts definition behind)
    (hedge : definition.extent.endOffset = edge)
    (hkeep : KeepParams script edge (feed :: next) [.functionDefinition definition])
    (htwin : Twin a b out (feed :: next) ts ts') :
    ∃ definition' rest' stop, ReadsFunction script' kind t' ts' definition' rest' ∧
      skipSeparators rest' = skipSeparators next ∧
      definition'.extent = script'.extent t'.start stop ∧ stop + a = edge + b := by
  have htail := suffix_of_cons_suffix hts
  obtain ⟨close, hclose, -, hextent⟩ := h.ends_closed
  have hall := hclose.trans htail
  rw [hextent, Script.extent_endOffset (hs.placed.mem hall).stop_boundary] at hedge
  have hbehind := hs.inside htail hout hclose (Nat.le_of_eq hedge)
  obtain rfl := hs.eq_of_close hall hedge hbehind
  obtain ⟨definition', rest', h', htwin'⟩ := h.twin hs htail hbehind hkeep htwin
  obtain ⟨close', hclose', -, hextent'⟩ := h'.ends_closed
  have hmoved := (htwin.close_moved hclose hclose' htwin').stop
  obtain rfl := htwin'.eq_of_end
  exact ⟨definition', _, close'.stop, h', skipSeparators_feed hfeed next, hextent', hedge ▸ hmoved⟩

include hp'

/-- A pipeline that ends with the stretch ends in front of a newline, if another statement follows it in the
    first script or a closing brace follows the newline. -/
theorem ReadsPipeline.before_feed (hpipe : ∀ {t}, t :: out <:+ script.tokens → t.kind ≠ .pipe)
    {blocks : List ScriptBlock} (h : ReadsPipeline script 0 false 0 (t :: ts) blocks edge behind)
    (hkeep : KeepParams script edge (feed :: next) (blocks.map .scriptBlock))
    (hts' : ts' <:+ script'.tokens) (htwin : Twin a b out (feed :: next) (t :: ts) ts')
    (hnext : (∃ u more, skipSeparators behind = u :: more ∧ u.kind ≠ .closing .brace) ∨
      ∃ close more, next = close :: more ∧ close.kind = .closing .brace) :
    ∃ blocks' stop rest', ReadsPipeline script' 0 false 0 ts' blocks' stop rest' ∧
      skipSeparators rest' = skipSeparators next ∧ stop + a = edge + b := by
  have hlater : t :: ts ≠ out := by
    rintro rfl
    exact not_cons_suffix _ _ hout
  obtain ⟨final, blocks', stop, hstop, hend, hcont⟩ := h.to_edge hp' hs hpipe hts hts'
    (above_zero _) (Text.isBoundary_zero _) hkeep htwin (fun heq => absurd heq hlater)
  obtain ⟨rest', hskip, hrest⟩ := ReadsPipeline.ends_at_feed script' hfeed
    (hnext.imp_left (depth_eq_zero_of_next hend))
  exact ⟨blocks', stop, rest', hcont rest' hrest, hskip, hstop⟩

/-- A statement that a newline follows in the second script is read there, if in the first script
    another statement follows it, or in the second a closing brace follows the newline. -/
theorem ReadsStatement.before_feed (hpipe : ∀ {t}, t :: out <:+ script.tokens → t.kind ≠ .pipe)
    {statement : Statement} (h : ReadsStatement script (t :: ts) statement behind)
    (hedge : statement.extent.endOffset = edge)
    (hkeep : KeepParams script edge (feed :: next) [statement.node])
    (hts' : ts' <:+ script'.tokens) (htwin : Twin a b out (feed :: next) (t :: ts) ts')
    (hnext : (∃ u more, skipSeparators behind = u :: more ∧ u.kind ≠ .closing .brace) ∨
      ∃ close more, next = close :: more ∧ close.kind = .closing .brace) :
    ∃ statement' rest' start stop, ReadsStatement script' ts' statement' rest' ∧
      skipSeparators rest' = skipSeparators next ∧ statement'.extent = script'.extent start stop ∧
      start + a = t.start + b ∧ stop + a = edge + b := by
  obtain ⟨t', us', rfl, ht, hus⟩ := htwin.tail hout
  cases h with
  | function hkind hfunction =>
    obtain ⟨definition', rest', stop, hfunction', hskip, hextent, hstop⟩ :=
      hfunction.before_feed hs hts hout hfeed hedge hkeep hus
    exact ⟨_, rest', t'.start, stop, .function (ht.kind.trans hkind) hfunction', hskip, hextent,
      ht.start, hstop⟩
  | pipeline hcode hclose hdeclare hpipeline =>
    obtain ⟨-, hboundary, -⟩ := hpipeline.within hs.placed hts (above_zero _) (above_zero _)
      (Text.isBoundary_zero _)
    rw [Statement.extent, Script.extent_endOffset hboundary] at hedge
    subst hedge
    obtain ⟨blocks', stop, rest', hpipeline', hskip, hstop⟩ :=
      hpipeline.before_feed hp' hs hts hout hfeed hpipe hkeep.children hts' htwin hnext
    rw [← ht.kind] at hcode hclose hdeclare
    exact ⟨_, rest', t'.start, stop, .pipeline hcode hclose hdeclare hpipeline', hskip, rfl,
      ht.start, hstop⟩

end Feed

end HelpAudit
