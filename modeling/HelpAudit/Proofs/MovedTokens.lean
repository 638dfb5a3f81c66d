import HelpAudit.Proofs.QuotedText
import HelpAudit.Proofs.TokenOwners

/-! Reading a stretch of a script at another place. The tokens of the stretch stand in a second script,
    with other tokens behind them; what the parser reads inside the stretch it reads there as well. Only
    one look of the parser reaches farther than what it then reads: that a script block starts with no
    parameter block shows behind its attributes, which may run on behind the stretch. So it is assumed
    that the script blocks without one find none at the other place either. -/

namespace HelpAudit

/-! ### Moved tokens -/

/-- The second token is the first one, moved from the offset `a` to the offset `b`. -/
structure Token.Moved (a b : Nat) (t t' : Token) : Prop where
  kind : t'.kind = t.kind
  value : t'.value = t.value
  start : t'.start + a = t.start + b
  stop : t'.stop + a = t.stop + b

/-- The lists have the same tokens at two places, up to `out` in the first and `out'` in the second. -/
inductive Twin (a b : Nat) (out out' : List Token) : List Token → List Token → Prop where
  | ends : Twin a b out out' out out'
  | cons {t t' ts ts'} : t.Moved a b t' → Twin a b out out' ts ts' →
    Twin a b out out' (t :: ts) (t' :: ts')

theorem not_cons_suffix (t : Token) (ts : List Token) : ¬ t :: ts <:+ ts := by
  intro h
  have := h.length_le
  rw [List.length_cons] at this
  omega

theorem exists_cons_of_suffix {t : Token} {ts rest : List Token} (h : t :: rest <:+ ts) :
    ∃ first more, ts = first :: more ∧ rest <:+ more := by
  cases ts with
  | nil => exact absurd (List.suffix_nil.mp h) (List.cons_ne_nil _ _)
  | cons first more => exact ⟨first, more, rfl, suffix_of_cons_suffix_cons h⟩

/-- What is passed over ends before a token that is not. -/
theorem suffix_dropWhile {p : Token → Bool} {close : Token} {ts rest : List Token}
    (h : close :: rest <:+ ts) (hclose : p close = false) : close :: rest <:+ ts.dropWhile p := by
  obtain ⟨used, rfl⟩ := h
  induction used with
  | nil => exact ⟨[], (List.dropWhile_cons_of_neg (by simp [hclose])).symm⟩
  | cons t used ih =>
    rw [List.cons_append, List.dropWhile_cons]
    split
    · exact ih
    · exact List.suffix_append (t :: used) _

section Twin

variable {a b : Nat} {out out' ts ts' : List Token}

theorem twin_append {w w' : List Token} (h : List.Forall₂ (Token.Moved a b) w w') :
    Twin a b out out' (w ++ out) (w' ++ out') := by
  induction h with
  | nil => exact .ends
  | cons ht _ ih => exact .cons ht ih

namespace Twin

theorem suffix (h : Twin a b out out' ts ts') : out <:+ ts := by
  induction h with
  | ends => exact List.suffix_refl out
  | cons _ _ ih => exact ih.trans (List.suffix_cons _ _)

theorem length_eq (h : Twin a b out out' ts ts') :
    ts.length + out'.length = ts'.length + out.length := by
  induction h with
  | ends => exact Nat.add_comm _ _
  | cons _ _ ih =>
    rw [List.length_cons, List.length_cons]
    omega

/-- While the first list is not at its end, the second starts with the moved token. -/
theorem tail {t : Token} (h : Twin a b out out' (t :: ts) ts') (hout : out <:+ ts) :
    ∃ t' more, ts' = t' :: more ∧ t.Moved a b t' ∧ Twin a b out out' ts more := by
  cases h with
  | ends => exact absurd hout (not_cons_suffix t ts)
  | cons ht hts => exact ⟨_, _, rfl, ht, hts⟩

/-- What is skipped by its kind is skipped in both lists, if it ends inside the stretch. -/
theorem dropWhile {p : TokenKind → Bool} {t : Token} {more : List Token}
    (h : Twin a b out out' ts ts') (hdrop : (ts.dropWhile fun t => p t.kind) = t :: more)
    (hout : out <:+ more) : ∃ t' more', (ts'.dropWhile fun t => p t.kind) = t' :: more' ∧
      t.Moved a b t' ∧ Twin a b out out' more more' := by
  induction h with
  | ends =>
    have hfront : t :: more <:+ out := hdrop ▸ List.dropWhile_suffix _
    exact absurd (hfront.trans hout) (not_cons_suffix t more)
  | @cons u u' us us' hu hus ih =>
    rw [List.dropWhile_cons] at hdrop ⊢
    rw [hu.kind]
    split at hdrop
    · rename_i hpass
      rw [if_pos hpass]
      exact ih hdrop
    · rename_i hpass
      rw [if_neg hpass]
      cases hdrop
      exact ⟨u', us', rfl, hu, hus⟩

theorem skipTrivia {t : Token} {more : List Token} (h : Twin a b out out' ts ts')
    (hskip : skipTrivia ts = t :: more) (hout : out <:+ more) :
    ∃ t' more', HelpAudit.skipTrivia ts' = t' :: more' ∧ t.Moved a b t' ∧
      Twin a b out out' more more' :=
  h.dropWhile hskip hout

theorem skipSeparators {t : Token} {more : List Token} (h : Twin a b out out' ts ts')
    (hskip : skipSeparators ts = t :: more) (hout : out <:+ more) :
    ∃ t' more', HelpAudit.skipSeparators ts' = t' :: more' ∧ t.Moved a b t' ∧
      Twin a b out out' more more' :=
  h.dropWhile hskip hout

/-- The tokens right before corresponding ends correspond. -/
theorem close_moved {close close' : Token} {rest rest' : List Token} (h : Twin a b out out' ts ts')
    (hclose : close :: rest <:+ ts) (hclose' : close' :: rest' <:+ ts')
    (hrest : Twin a b out out' rest rest') : close.Moved a b close' := by
  have hlength := hrest.length_eq
  induction h with
  | ends => exact absurd (hclose.trans hrest.suffix) (not_cons_suffix close rest)
  | @cons u u' us us' hu hus ih =>
    have hlength' := hus.length_eq
    rcases List.suffix_cons_iff.mp hclose with heq | hclose <;>
      rcases List.suffix_cons_iff.mp hclose' with heq' | hclose'
    · cases heq
      cases heq'
      exact hu
    · cases heq
      have := hclose'.length_le
      rw [List.length_cons] at this
      omega
    · cases heq'
      have := hclose.length_le
      rw [List.length_cons] at this
      omega
    · exact ih hclose hclose'

/-- In front of a closing token inside the stretch the separators skipped are inside it as well. -/
theorem skipSeparators_of_close {close : Token} {rest : List Token} (h : Twin a b out out' ts ts')
    (hclose : close :: rest <:+ HelpAudit.skipSeparators ts) (hout : out <:+ rest) :
    Twin a b out out' (HelpAudit.skipSeparators ts) (HelpAudit.skipSeparators ts') := by
  cases hskip : HelpAudit.skipSeparators ts with
  | nil =>
    rw [hskip] at hclose
    exact absurd (List.suffix_nil.mp hclose) (List.cons_ne_nil _ _)
  | cons t more =>
    rw [hskip] at hclose
    obtain ⟨t', more', hskip', ht, hmore⟩ :=
      h.skipSeparators hskip (hout.trans (suffix_of_cons_suffix_cons hclose))
    rw [hskip']
    exact .cons ht hmore

end Twin

end Twin

/-! ### Parameters -/

/-- How deep the brackets go after a token of a parameter list depends on its kind only. -/
theorem Segment.read_depth (script : Script) (segment : Segment) (depth : Nat) (t : Token) :
    (segment.read script depth t).2 = match t.kind with
      | .opening _ => depth + 1
      | .closing _ => depth - 1
      | _ => depth := by
  rw [Segment.read]
  cases t.kind <;> rfl

section Parameters

variable {script script' : Script} {a b : Nat} {out out' : List Token}

/-- A list of parameters inside the stretch is read at the other place. -/
theorem parameterList_twin {opener opener' : Token} : ∀ {ts ts' : List Token}
    {segment segment' : Segment} {depth : Nat} {list : ParameterList},
    parameterList script opener segment depth ts = .ok list → out <:+ list.rest →
    Twin a b out out' ts ts' →
    ∃ list', parameterList script' opener' segment' depth ts' = .ok list' ∧
      Twin a b out out' list.rest list'.rest
  | [], _, _, _, _, _, h, _, _ => by rw [parameterList] at h; cases h
  | t :: ts, ts', segment, segment', depth, list, h, hout, htwin => by
    obtain ⟨-, used, hused⟩ := parameterList_split h
    have hrest : list.rest <:+ ts := suffix_of_cons_suffix_cons ⟨used, hused.symm⟩
    obtain ⟨t', more, rfl, ht, hmore⟩ := htwin.tail (hout.trans hrest)
    rw [parameterList] at h
    rw [parameterList, ht.kind]
    split at h
    · rw [if_pos ‹_›]
      cases h
      exact ⟨_, rfl, hmore⟩
    · rw [if_neg ‹_›]
      split at h
      · rw [if_pos ‹_›]
        obtain ⟨others, hothers, h⟩ := bind_eq_ok.mp h
        cases h
        obtain ⟨list', hlist', hrest'⟩ := parameterList_twin hothers hout hmore
        exact ⟨_, bind_eq_ok.mpr ⟨list', hlist', rfl⟩, hrest'⟩
      · rw [if_neg ‹_›]
        -- the segments differ in their offsets, but the depth depends on the kinds only
        have hdepth : (segment'.read script' depth t').2 = (segment.read script depth t).2 := by
          rw [Segment.read_depth, Segment.read_depth, ht.kind]
        obtain ⟨list', hlist', hrest'⟩ : ∃ list', parameterList script' opener'
            (segment'.read script' depth t').1 (segment.read script depth t).2 more = .ok list' ∧
            Twin a b out out' list.rest list'.rest := parameterList_twin h hout hmore
        rw [← hdepth] at hlist'
        exact ⟨list', hlist', hrest'⟩

/-- Attributes and the keyword behind them are read at the other place. -/
theorem attributeGroups_twin : ∀ {ts ts' : List Token} {current current' : Option (Token × Nat)}
    {attributes : List String} {keyword : Token} {more : List Token},
    attributeGroups script current ts = .ok (attributes, keyword :: more) → out <:+ more →
    current.map (·.2) = current'.map (·.2) → Twin a b out out' ts ts' →
    ∃ attributes' keyword' more',
      attributeGroups script' current' ts' = .ok (attributes', keyword' :: more') ∧
      keyword.Moved a b keyword' ∧ Twin a b out out' more more'
  | [], _, none, _, _, _, _, h, _, _, _ => by rw [attributeGroups] at h; cases h
  | [], _, some _, _, _, _, _, h, _, _, _ => by rw [attributeGroups] at h; cases h
  | t :: ts, ts', none, current', attributes, keyword, more, h, hout, hcurrent, htwin => by
    have hmore := suffix_of_cons_suffix_cons (attributeGroups_suffix h)
    obtain ⟨t', rest', rfl, ht, hrest⟩ := htwin.tail (hout.trans hmore)
    obtain rfl : current' = none := by simpa using hcurrent.symm
    rw [attributeGroups] at h
    rw [attributeGroups, ht.kind]
    split at h
    · rw [if_pos ‹_›]
      exact attributeGroups_twin h hout rfl hrest
    · rw [if_neg ‹_›]
      split at h
      · rw [if_pos ‹_›]
        exact attributeGroups_twin h hout rfl hrest
      · rw [if_neg ‹_›]
        cases h
        exact ⟨_, _, _, rfl, ht, hrest⟩
  | t :: ts, ts', some (opener, depth), current', attributes, keyword, more, h, hout, hcurrent, htwin => by
    have hmore := suffix_of_cons_suffix_cons (attributeGroups_suffix h)
    obtain ⟨t', rest', rfl, ht, hrest⟩ := htwin.tail (hout.trans hmore)
    obtain ⟨⟨opener', _⟩, rfl, rfl⟩ := Option.map_eq_some_iff.mp hcurrent.symm
    rw [attributeGroups] at h
    rw [attributeGroups, ht.kind]
    split at h
    · rw [if_pos ‹_›]
      exact attributeGroups_twin h hout rfl hrest
    · rw [if_neg ‹_›]
      split at h
      · rw [if_pos ‹_›]
        split at h
        · rw [if_pos ‹_›]
          obtain ⟨⟨others, _⟩, hothers, h⟩ := bind_eq_ok.mp h
          cases h
          obtain ⟨others', keyword', more', hothers', hmoved⟩ :=
            attributeGroups_twin hothers hout rfl hrest
          exact ⟨_, keyword', more', bind_eq_ok.mpr ⟨_, hothers', rfl⟩, hmoved⟩
        · rw [if_neg ‹_›]
          exact attributeGroups_twin h hout rfl hrest
      · rw [if_neg ‹_›]
        exact attributeGroups_twin h hout rfl hrest

theorem paramBlock_eq_some {ts more inner : List Token} {attributes : List String}
    {keyword opener : Token} {list : ParameterList}
    (hgroups : attributeGroups script none ts = .ok (attributes, keyword :: more))
    (hparam : keyword.kind = .keyword .param) (hopener : skipTrivia more = opener :: inner)
    (hparen : opener.kind = .opening .paren) (hlist : parameterList script opener {} 0 inner = .ok list) :
    paramBlock script ts = .ok (some ⟨script.extent (((skipTrivia ts).head?.map (·.start)).getD
      keyword.start) list.close.stop, attributes, list.parameters⟩, list.rest) := by
  simp only [paramBlock, hgroups, bind, Except.bind, hparam, hopener, if_pos hparen, hlist]
  rfl

/-- A parameter block inside the stretch is found at the other place. -/
theorem paramBlock_twin {ts ts' after : List Token} {block : ParamBlock}
    (h : paramBlock script ts = .ok (some block, after)) (hout : out <:+ after)
    (htwin : Twin a b out out' ts ts') :
    ∃ block' after', paramBlock script' ts' = .ok (some block', after') ∧
      Twin a b out out' after after' := by
  rw [paramBlock] at h
  obtain ⟨⟨attributes, rest⟩, hgroups, h⟩ := bind_eq_ok.mp h
  simp only at h
  split at h
  · rename_i keyword more
    split at h
    · rename_i opener inner hparam hopener
      split at h
      · rename_i hparen
        obtain ⟨list, hlist, h⟩ := bind_eq_ok.mp h
        cases h
        -- the block ends inside the stretch, so every part of it does
        have hinner := hout.trans (parameterList_suffix hlist)
        have hmore := suffix_of_cons_suffix (hopener ▸ skipTrivia_suffix more)
        obtain ⟨attributes', keyword', more', hgroups', hkeyword, hmore'⟩ :
            ∃ attributes' keyword' more', attributeGroups script' none ts' =
              .ok (attributes', keyword' :: more') ∧ keyword.Moved a b keyword' ∧
              Twin a b out out' more more' :=
          attributeGroups_twin hgroups (hinner.trans hmore) rfl htwin
        obtain ⟨opener', inner', hopener', hmoved, hinner'⟩ := hmore'.skipTrivia hopener hinner
        obtain ⟨list', hlist', hrest⟩ := parameterList_twin hlist hout hinner'
        exact ⟨_, list'.rest, paramBlock_eq_some hgroups' (hkeyword.kind.trans hparam) hopener'
          (hmoved.kind.trans hparen) hlist', hrest⟩
      · cases h
    · cases h
  · cases h

/-- Whether a look for a parameter block ends and finds none. -/
def findsNoParams (script : Script) (ts : List Token) : Bool :=
  match paramBlock script ts with
  | .ok (none, _) => true
  | _ => false

theorem findsNoParams_iff {ts : List Token} :
    findsNoParams script ts = true ↔ paramBlock script ts = .ok (none, ts) := by
  rw [findsNoParams]
  constructor
  · intro h
    split at h
    · rename_i hparams
      rw [hparams, paramBlock_none hparams]
    · cases h
  · intro h
    rw [h]

theorem alike_refl (ts : List Token) : List.Forall₂ Link.outline.token ts ts :=
  List.forall₂_same.mpr fun _ _ => ⟨rfl, fun _ => rfl⟩

theorem Token.Moved.alike {t t' : Token} (h : t.Moved a b t') : Link.outline.token t t' :=
  ⟨h.kind.symm, fun _ => h.value.symm⟩

theorem aligned_of_forall₂ {link : Link} {ts ts' : List Token} (h : List.Forall₂ link.token ts ts') :
    ∀ free, Aligned link free ts ts' := by
  induction h with
  | nil => exact fun _ => .nil
  | cons ht _ ih => exact fun _ => .cons ht (ih _)

/-- The look depends on the outlines of the tokens only. -/
theorem findsNoParams_of_alike {ts ts' : List Token} (h : List.Forall₂ Link.outline.token ts ts')
    (hfinds : findsNoParams script ts = true) : findsNoParams script' ts' = true := by
  have hagree := paramBlock_agree (Link.outline_joins script script') (aligned_of_forall₂ h true)
  rw [findsNoParams_iff.mp hfinds] at hagree
  rcases hagree.cases with ⟨_, _, herror, -, -⟩ | ⟨_, ⟨params', after'⟩, hok, hparams', hlike, -⟩
  · cases herror
  · cases hok
    obtain rfl : params' = none := Option.map_eq_none_iff.mp hlike.symm
    rw [findsNoParams, hparams']

/-- The parameters behind the name of a function, and the brace behind them. -/
theorem inlineParameters_twin {ts ts' inner : List Token} {opener : Token}
    {parameters : Option (List Parameter)}
    (h : inlineParameters script ts = .ok (parameters, opener :: inner)) (hout : out <:+ inner)
    (htwin : Twin a b out out' ts ts') :
    ∃ parameters' opener' inner', inlineParameters script' ts' = .ok (parameters', opener' :: inner') ∧
      opener.Moved a b opener' ∧ Twin a b out out' inner inner' := by
  rw [inlineParameters] at h
  split at h
  · rename_i first more hfirst
    split at h
    · rename_i hparen
      obtain ⟨list, hlist, h⟩ := bind_eq_ok.mp h
      obtain ⟨-, hskip⟩ := Prod.mk.inj (Except.ok.inj h)
      -- the brace behind the list is inside the stretch, so the list is
      have hrest : out <:+ list.rest := hout.trans
        (suffix_of_cons_suffix (hskip ▸ skipTrivia_suffix list.rest))
      obtain ⟨first', more', hfirst', hmoved, hmore⟩ :=
        htwin.skipTrivia hfirst (hrest.trans (parameterList_suffix hlist))
      obtain ⟨list', hlist', hrest'⟩ := parameterList_twin hlist hrest hmore
      obtain ⟨opener', inner', hskip', hopener, hinner⟩ := hrest'.skipTrivia hskip hout
      refine ⟨some list'.parameters, opener', inner', ?_, hopener, hinner⟩
      simp only [inlineParameters, hfirst', hmoved.kind, if_pos hparen]
      exact bind_eq_ok.mpr ⟨list', hlist', by rw [hskip']; rfl⟩
    · rename_i hparen
      cases h
      obtain ⟨opener', inner', hopener', hmoved, hinner⟩ := htwin.skipTrivia hfirst hout
      refine ⟨none, opener', inner', ?_, hmoved, hinner⟩
      simp only [inlineParameters, hopener', hmoved.kind, if_neg hparen]
      rfl
  · cases h

/-- A closing brace inside the stretch bounds the look for the brace of a named block. -/
theorem namedBlockKind?_twin {ts ts' rest : List Token} {close : Token} (hclose : close :: rest <:+ ts)
    (hkind : close.kind = .closing .brace) (hout : out <:+ rest) (htwin : Twin a b out out' ts ts') :
    namedBlockKind? ts' = namedBlockKind? ts := by
  cases ts with
  | nil => exact absurd (List.suffix_nil.mp hclose) (List.cons_ne_nil _ _)
  | cons t more =>
    obtain ⟨t', more', rfl, ht, hmore⟩ := htwin.tail (hout.trans (suffix_of_cons_suffix_cons hclose))
    rcases List.suffix_cons_iff.mp hclose with heq | hclose
    · cases heq
      simp [namedBlockKind?, ht.kind, hkind]
    · have hskip : close :: rest <:+ skipTrivia more := suffix_dropWhile hclose (by rw [hkind]; rfl)
      cases hnext : skipTrivia more with
      | nil =>
        rw [hnext] at hskip
        exact absurd (List.suffix_nil.mp hskip) (List.cons_ne_nil _ _)
      | cons next inner =>
        rw [hnext] at hskip
        obtain ⟨next', inner', hnext', hmoved, -⟩ :=
          hmore.skipTrivia hnext (hout.trans (suffix_of_cons_suffix_cons hskip))
        simp [namedBlockKind?, nextKind?, ht.kind, hnext, hnext', hmoved.kind]

end Parameters

/-! ### Stretches of a script -/

/-- The tokens between two offsets. -/
def Script.between (script : Script) (lo hi : Nat) : List Token :=
  script.tokens.filter fun t => lo ≤ t.start && t.stop ≤ hi

/-- A stretch of the script ends at the offset, and `out` is what stands behind it. -/
structure Stretch (script : Script) (stop : Nat) (out : List Token) : Prop where
  placed : script.IsPlaced
  above : Above stop out
  below : ∀ {t ts}, t :: ts <:+ script.tokens → out <:+ ts → t.stop ≤ stop

/-- A token of the script ends a stretch. -/
theorem stretch_of_token {script : Script} (hp : script.IsPlaced) {t : Token} {out : List Token}
    (ht : t :: out <:+ script.tokens) : Stretch script t.stop out := by
  refine ⟨hp, hp.above_stop ht, fun {u ts} hu hout => ?_⟩
  have hlt := (hp.mem ht).nonempty
  have hlength := hout.length_le
  have hsuffix : t :: out <:+ u :: ts :=
    List.suffix_of_suffix_length_le ht hu (by rw [List.length_cons, List.length_cons]; omega)
  rcases List.suffix_cons_iff.mp hsuffix with heq | hlater
  · cases heq
    exact Nat.le_refl _
  · have := hp.above_stop hu t (hlater.subset List.mem_cons_self)
    omega

/-- The tokens between two places, if those in front stand before the first one. -/
theorem Stretch.between_eq {script : Script} {stop lo : Nat} {front w out : List Token}
    (hs : Stretch script stop out) (h : front ++ (w ++ out) = script.tokens)
    (hfront : ∀ t ∈ front, t.start < lo) (hlo : ∀ t ∈ w, lo ≤ t.start) :
    script.between lo stop = w := by
  have hbefore : front.filter (fun t => lo ≤ t.start && t.stop ≤ stop) = [] := by
    refine List.filter_eq_nil_iff.mpr fun t ht => ?_
    have := hfront t ht
    simp only [Bool.and_eq_true, decide_eq_true_eq, not_and]
    omega
  have hinside : w.filter (fun t => lo ≤ t.start && t.stop ≤ stop) = w := by
    refine List.filter_eq_self.mpr fun t ht => ?_
    obtain ⟨used, back, rfl⟩ := List.append_of_mem ht
    have hrest : t :: (back ++ out) <:+ script.tokens := ⟨front ++ used, by simp [← h]⟩
    simp only [Bool.and_eq_true, decide_eq_true_eq]
    exact ⟨hlo t ht, hs.below hrest (List.suffix_append back out)⟩
  have hbehind : out.filter (fun t => lo ≤ t.start && t.stop ≤ stop) = [] := by
    refine List.filter_eq_nil_iff.mpr fun t ht => ?_
    have hle := hs.above t ht
    have hlt := (hs.placed.standsIn t (h ▸ by simp [ht])).nonempty
    simp only [Bool.and_eq_true, decide_eq_true_eq, not_and]
    omega
  rw [Script.between, ← h, List.filter_append, List.filter_append, hbefore, hinside, hbehind,
    List.nil_append, List.append_nil]

theorem Script.IsPlaced.start_lt {script : Script} (hp : script.IsPlaced) {front ts : List Token}
    {t u : Token} (h : front ++ t :: ts = script.tokens) (hu : u ∈ front) : u.start < t.start := by
  have hspaced := hp.spaced
  rw [← h] at hspaced
  have hle := (List.pairwise_append.mp hspaced).2.2 u hu t List.mem_cons_self
  have hlt := (hp.standsIn u (h ▸ List.mem_append_left _ hu)).nonempty
  omega

section Between

variable {script : Script} {stop : Nat} {t : Token} {w out : List Token} (hs : Stretch script stop out)
  (h : t :: (w ++ out) <:+ script.tokens)

include hs h

/-- The tokens of a stretch behind one of them. -/
theorem Stretch.between_behind : script.between (t.start + 1) stop = w := by
  have hlater := hs.placed.above_stop h
  have ht := (hs.placed.mem h).nonempty
  obtain ⟨front, hfront⟩ := h
  have htokens : (front ++ [t]) ++ (w ++ out) = script.tokens := by
    rw [List.append_assoc]
    exact hfront
  refine hs.between_eq htokens ?_ ?_
  · intro u hu
    rcases List.mem_append.mp hu with hu | hu
    · have := hs.placed.start_lt hfront hu
      omega
    · rw [List.mem_singleton.mp hu]
      exact Nat.lt_succ_self _
  · intro u hu
    have := hlater u (List.mem_append_left out hu)
    omega

/-- The tokens of a stretch from one of them on. -/
theorem Stretch.between_from : script.between t.start stop = t :: w := by
  have hlater := hs.placed.above_stop h
  have ht := (hs.placed.mem h).nonempty
  obtain ⟨front, hfront⟩ := h
  have htokens : front ++ ((t :: w) ++ out) = script.tokens := hfront
  refine hs.between_eq htokens (fun u hu => hs.placed.start_lt hfront hu) ?_
  intro u hu
  rcases List.mem_cons.mp hu with rfl | hu
  · exact Nat.le_refl _
  · have := hlater u (List.mem_append_left out hu)
    omega

end Between

/-- A script block that has no parameter block finds none either where, up to the offset, its own tokens
    stand and then those of `behind`. -/
def Node.keepsParams (script : Script) (stop : Nat) (behind : List Token) : Node → Bool
  | .scriptBlock block => block.paramBlock.isSome ||
      findsNoParams script (script.between (block.extent.startOffset + 1) stop ++ behind)
  | _ => true

/-- So it is for every script block in the nodes. -/
def KeepParams (script : Script) (stop : Nat) (behind : List Token) (nodes : List Node) : Prop :=
  ∀ node ∈ nodes, ∀ n ∈ node.preorder, n.keepsParams script stop behind = true

instance (script : Script) (stop : Nat) (behind : List Token) (nodes : List Node) :
    Decidable (KeepParams script stop behind nodes) :=
  decidable_of_iff
    (∀ node ∈ nodes, ∀ n ∈ node.visited true, n.keepsParams script stop behind = true)
    (by simp only [Node.visited_true, KeepParams])

section KeepParams

variable {script : Script} {stop : Nat} {behind : List Token} {node : Node} {nodes others : List Node}

theorem keepParams_append : KeepParams script stop behind (nodes ++ others) ↔
    KeepParams script stop behind nodes ∧ KeepParams script stop behind others := by
  simp only [KeepParams, List.mem_append, or_imp, forall_and]

theorem keepParams_cons : KeepParams script stop behind (node :: nodes) ↔
    KeepParams script stop behind [node] ∧ KeepParams script stop behind nodes :=
  @keepParams_append script stop behind [node] nodes

theorem KeepParams.children (h : KeepParams script stop behind [node]) :
    KeepParams script stop behind node.children :=
  (Node.forall_mem_preorder.mp (h node List.mem_cons_self)).2

theorem KeepParams.block {block : ScriptBlock} (h : KeepParams script stop behind [.scriptBlock block])
    (hnone : block.paramBlock = none) :
    findsNoParams script (script.between (block.extent.startOffset + 1) stop ++ behind) = true := by
  have hkeeps := (Node.forall_mem_preorder.mp (h _ List.mem_cons_self)).1
  rw [Node.keepsParams, hnone] at hkeeps
  exact hkeeps

/-- Only the outlines of the tokens behind count. -/
theorem KeepParams.of_alike {behind' : List Token} (h : KeepParams script stop behind nodes)
    (hbehind : List.Forall₂ Link.outline.token behind behind') :
    KeepParams script stop behind' nodes := by
  intro node hnode n hn
  have hkeeps := h node hnode n hn
  cases n with
  | scriptBlock block =>
    rw [Node.keepsParams, Bool.or_eq_true] at hkeeps ⊢
    exact hkeeps.imp_right fun hfinds =>
      findsNoParams_of_alike (List.rel_append (alike_refl _) hbehind) hfinds
  | _ => exact hkeeps

end KeepParams

/-! ### Reading inside a stretch -/

section Transport

variable {script script' : Script} {edge a b : Nat} {out out' : List Token}

theorem Twin.alike {ts ts' : List Token} (h : Twin a b out out' ts ts') :
    ∃ w, ts = w ++ out ∧ List.Forall₂ Link.outline.token (w ++ out') ts' := by
  induction h with
  | ends => exact ⟨[], rfl, alike_refl out'⟩
  | @cons t _ _ _ ht _ ih =>
    obtain ⟨w, rfl, halike⟩ := ih
    exact ⟨t :: w, rfl, .cons ht.alike halike⟩

/-- The parameter block of a script block in the stretch is found at the other place, or none is. -/
theorem paramBlock_twin_of_keeps (hs : Stretch script edge out) {first : Token} {ts ts' after : List Token}
    {block : ScriptBlock} (hts : first :: ts <:+ script.tokens)
    (hstart : block.extent.startOffset = first.start)
    (hkeep : KeepParams script edge out' [.scriptBlock block])
    (h : paramBlock script ts = .ok (block.paramBlock, after)) (hout : out <:+ after)
    (htwin : Twin a b out out' ts ts') :
    ∃ params' after', paramBlock script' ts' = .ok (params', after') ∧
      Twin a b out out' after after' := by
  cases hparams : block.paramBlock with
  | some params =>
    rw [hparams] at h
    obtain ⟨params', after', h', htwin'⟩ := paramBlock_twin h hout htwin
    exact ⟨some params', after', h', htwin'⟩
  | none =>
    rw [hparams] at h
    obtain ⟨w, rfl, halike⟩ := htwin.alike
    have hfinds := hkeep.block hparams
    rw [hstart, hs.between_behind hts] at hfinds
    rw [paramBlock_none h]
    exact ⟨none, ts', findsNoParams_iff.mp (findsNoParams_of_alike halike hfinds), htwin⟩

mutual

/-- A script block that ends inside the stretch is read at the other place. -/
theorem ReadsBlock.twin (hs : Stretch script edge out) {opener : Option Token} {ts : List Token}
    {block : ScriptBlock} {rest : List Token} : ReadsBlock script opener ts block rest →
    ∀ {first first' : Token} {ts' : List Token}, opener = some first → first :: ts <:+ script.tokens →
    out <:+ rest → KeepParams script edge out' [.scriptBlock block] → Twin a b out out' ts ts' →
    ∃ block' rest', ReadsBlock script' (some first') ts' block' rest' ∧ Twin a b out out' rest rest'
  | .whole _ _, _, _, _, h, _, _, _, _ => nomatch h
  | .braced hparams hbody hclose, first, first', ts', hopener, hts, hout, hkeep, htwin => by
    cases hopener
    have hafter := hbody.suffix.trans (skipSeparators_suffix _)
    obtain ⟨params', after', hparams', hafter'⟩ := paramBlock_twin_of_keeps hs hts
      (Script.extent_startOffset (hs.placed.mem hts).start_boundary _) hkeep hparams
      (hout.trans (suffix_of_cons_suffix hafter)) htwin
    have htokens := (skipSeparators_suffix _).trans
      ((paramBlock_suffix hparams).trans (suffix_of_cons_suffix hts))
    obtain ⟨blocks', close', rest', hbody', hmoved, hrest'⟩ := hbody.twin hs rfl hclose htokens hout
      (keepParams_append.mp hkeep.children).2 (hafter'.skipSeparators_of_close hbody.suffix hout)
    exact ⟨_, rest', .braced hparams' hbody' (hmoved.kind.trans hclose), hrest'⟩

/-- The body of a script block, with its closing brace. -/
theorem ReadsBody.twin (hs : Stretch script edge out) {closing : Bool} {ts : List Token}
    {blocks : List NamedBlock} {rest : List Token} : ReadsBody script closing ts blocks rest →
    ∀ {close : Token} {more ts' : List Token}, rest = close :: more → close.kind = .closing .brace →
    ts <:+ script.tokens → out <:+ more → KeepParams script edge out' (blocks.map .namedBlock) →
    Twin a b out out' ts ts' →
    ∃ blocks' close' more', ReadsBody script' closing ts' blocks' (close' :: more') ∧
      close.Moved a b close' ∧ Twin a b out out' more more'
  | .named hkind hnamed, close, more, ts', hrest, hclose, hts, hout, hkeep, htwin => by
    obtain ⟨blocks', close', more', hnamed', hmoved⟩ := hnamed.twin hs hrest hts hout hkeep htwin
    refine ⟨blocks', close', more', .named ?_ hnamed', hmoved⟩
    rw [namedBlockKind?_twin (hrest ▸ hnamed.suffix) hclose hout htwin]
    exact hkind
  | .unnamed hkind hstatements, close, more, ts', hrest, hclose, hts, hout, hkeep, htwin => by
    obtain ⟨statements', close', more', hstatements', hmoved⟩ :=
      hstatements.twin hs hrest hts hout hkeep.children htwin
    refine ⟨_, close', more', .unnamed ?_ hstatements', hmoved⟩
    rw [namedBlockKind?_twin (hrest ▸ hstatements.suffix) hclose hout htwin]
    exact hkind

/-- The named blocks of such a body. -/
theorem ReadsNamed.twin (hs : Stretch script edge out) {closing : Bool} {ts : List Token}
    {blocks : List NamedBlock} {rest : List Token} : ReadsNamed script closing ts blocks rest →
    ∀ {close : Token} {more ts' : List Token}, rest = close :: more → ts <:+ script.tokens →
    out <:+ more → KeepParams script edge out' (blocks.map .namedBlock) → Twin a b out out' ts ts' →
    ∃ blocks' close' more', ReadsNamed script' closing ts' blocks' (close' :: more') ∧
      close.Moved a b close' ∧ Twin a b out out' more more'
  | .finish _, _, _, _, h, _, _, _, _ => nomatch h
  | .closed hskip hclose, close, more, ts', hrest, hts, hout, hkeep, htwin => by
    cases hrest
    obtain ⟨close', more', hskip', hmoved, hmore⟩ := htwin.skipSeparators hskip hout
    exact ⟨[], close', more', .closed hskip' (hmoved.kind.trans hclose), hmoved, hmore⟩
  | .block hskip hkind hopener hbrace hstatements hclose hblocks, close, more, ts', hrest, hts, hout,
      hkeep, htwin => by
    -- the end of the stretch comes behind the last block, so behind each part of this one
    have hbehind := hout.trans (suffix_of_cons_suffix (hrest ▸ hblocks.suffix))
    have hinner := hbehind.trans (suffix_of_cons_suffix hstatements.suffix)
    have hafter := suffix_of_cons_suffix (hopener ▸ skipTrivia_suffix _)
    have htokens := hafter.trans (suffix_of_cons_suffix ((suffix_of_skipSeparators hskip).trans hts))
    obtain ⟨t', after', hskip', ht, hafter'⟩ := htwin.skipSeparators hskip (hinner.trans hafter)
    obtain ⟨opener', inner', hopener', ho, hinner'⟩ := hafter'.skipTrivia hopener hinner
    obtain ⟨hfirst, hothers⟩ := keepParams_cons.mp hkeep
    obtain ⟨statements', close', behind', hstatements', hc, hbehind'⟩ :=
      hstatements.twin hs rfl htokens hbehind hfirst.children hinner'
    obtain ⟨blocks', last', more', hblocks', hmoved⟩ := hblocks.twin hs hrest
      ((suffix_of_cons_suffix hstatements.suffix).trans htokens) hout hothers hbehind'
    exact ⟨_, last', more', .block hskip' (ht.kind.trans hkind) hopener' (ho.kind.trans hbrace)
      hstatements' (hc.kind.trans hclose) hblocks', hmoved⟩

/-- The statements of a block. -/
theorem ReadsStatements.twin (hs : Stretch script edge out) {closing : Bool} {ts : List Token}
    {statements : List Statement} {rest : List Token} : ReadsStatements script closing ts statements rest →
    ∀ {close : Token} {more ts' : List Token}, rest = close :: more → ts <:+ script.tokens →
    out <:+ more → KeepParams script edge out' (statements.map Statement.node) → Twin a b out out' ts ts' →
    ∃ statements' close' more', ReadsStatements script' closing ts' statements' (close' :: more') ∧
      close.Moved a b close' ∧ Twin a b out out' more more'
  | .finish _, _, _, _, h, _, _, _, _ => nomatch h
  | .closed hskip hclose, close, more, ts', hrest, hts, hout, hkeep, htwin => by
    cases hrest
    obtain ⟨close', more', hskip', hmoved, hmore⟩ := htwin.skipSeparators hskip hout
    exact ⟨[], close', more', .closed hskip' (hmoved.kind.trans hclose), hmoved, hmore⟩
  | .function hskip hkind hfunction hothers, close, more, ts', hrest, hts, hout, hkeep, htwin => by
    have hbehind := hout.trans (suffix_of_cons_suffix (hrest ▸ hothers.suffix))
    have htokens := suffix_of_cons_suffix ((suffix_of_skipSeparators hskip).trans hts)
    obtain ⟨t', after', hskip', ht, hafter'⟩ :=
      htwin.skipSeparators hskip (hbehind.trans hfunction.suffix)
    obtain ⟨hfirst, hkeep⟩ := keepParams_cons.mp hkeep
    obtain ⟨definition', behind', hfunction', hbehind'⟩ :=
      hfunction.twin hs htokens hbehind hfirst hafter'
    obtain ⟨statements', close', more', hothers', hmoved⟩ :=
      hothers.twin hs hrest (hfunction.suffix.trans htokens) hout hkeep hbehind'
    exact ⟨_, close', more', .function hskip' (ht.kind.trans hkind) hfunction' hothers', hmoved⟩
  | .pipeline hskip hclose hdeclare hpipeline hothers, close, more, ts', hrest, hts, hout, hkeep,
      htwin => by
    have htokens := (suffix_of_skipSeparators hskip).trans hts
    -- a pipeline has no closing token of its own: it ends in front of a token that must be inside as well
    obtain ⟨first, others, hfirst, hmore⟩ := exists_cons_of_suffix (hrest ▸ hothers.suffix)
    have hbehind := hout.trans hmore
    obtain ⟨t', after', hskip', ht, hafter'⟩ := htwin.skipSeparators hskip
      (hbehind.trans (suffix_of_cons_suffix_cons (hfirst ▸ hpipeline.suffix)))
    obtain ⟨hkept, hkeep⟩ := keepParams_cons.mp hkeep
    obtain ⟨blocks', last', first', behind', hpipeline', hf, hbehind'⟩ :=
      hpipeline.twin hs hfirst htokens hbehind hkept.children (.cons ht hafter')
    have hboth : Twin a b out out' (first :: others) (first' :: behind') := .cons hf hbehind'
    rw [← hfirst] at hboth
    obtain ⟨statements', close', more', hothers', hmoved⟩ :=
      hothers.twin hs hrest (hpipeline.suffix.trans htokens) hout hkeep hboth
    refine ⟨_, close', more', .pipeline hskip' ?_ ?_ hpipeline' hothers', hmoved⟩
    · rw [ht.kind]
      exact hclose
    · rw [ht.kind]
      exact hdeclare

theorem ReadsFunction.twin (hs : Stretch script edge out) {kind : FunctionKind} {keyword : Token}
    {ts : List Token} {definition : FunctionDefinition} {rest : List Token} :
    ReadsFunction script kind keyword ts definition rest →
    ∀ {keyword' : Token} {ts' : List Token}, ts <:+ script.tokens → out <:+ rest →
    KeepParams script edge out' [.functionDefinition definition] → Twin a b out out' ts ts' →
    ∃ definition' rest', ReadsFunction script' kind keyword' ts' definition' rest' ∧
      Twin a b out out' rest rest'
  | .mk hname hparameters hbrace hbody, keyword', ts', hts, hout, hkeep, htwin => by
    have hopener := inlineParameters_suffix hparameters
    have hinner := hout.trans hbody.suffix
    obtain ⟨name', more, rfl, hn, hmore⟩ := htwin.tail (hinner.trans (suffix_of_cons_suffix hopener))
    obtain ⟨parameters', opener', inner', hparameters', ho, hinner'⟩ :=
      inlineParameters_twin hparameters hinner hmore
    obtain ⟨body', rest', hbody', hrest'⟩ := hbody.twin hs rfl
      (hopener.trans (suffix_of_cons_suffix hts)) hout (keepParams_append.mp hkeep.children).2 hinner'
    refine ⟨_, rest', .mk ?_ hparameters' (ho.kind.trans hbrace) hbody', hrest'⟩
    rw [hn.kind]
    exact hname

/-- Any other statement, with the token behind it. -/
theorem ReadsPipeline.twin (hs : Stretch script edge out) {depth : Nat} {afterPipe : Bool} {stop : Nat}
    {ts : List Token} {blocks : List ScriptBlock} {last : Nat} {rest : List Token} :
    ReadsPipeline script depth afterPipe stop ts blocks last rest →
    ∀ {first : Token} {stop' : Nat} {more ts' : List Token}, rest = first :: more →
    ts <:+ script.tokens → out <:+ more → KeepParams script edge out' (blocks.map .scriptBlock) →
    Twin a b out out' ts ts' →
    ∃ blocks' last' first' more',
      ReadsPipeline script' depth afterPipe stop' ts' blocks' last' (first' :: more') ∧
      first.Moved a b first' ∧ Twin a b out out' more more'
  | .finish, _, _, _, _, h, _, _, _, _ => nomatch h
  | .ended hends, first, stop', more, ts', hrest, hts, hout, hkeep, htwin => by
    cases hrest
    obtain ⟨first', more', rfl, hmoved, hmore⟩ := htwin.tail hout
    exact ⟨[], stop', first', more', .ended (hmoved.kind ▸ hends), hmoved, hmore⟩
  | .trivia htrivia hends hrest, first, stop', more, ts', h, hts, hout, hkeep, htwin => by
    obtain ⟨t', after', rfl, ht, hafter⟩ := htwin.tail
      (hout.trans (suffix_of_cons_suffix (h ▸ hrest.suffix)))
    obtain ⟨blocks', last', first', more', hrest', hmoved⟩ :=
      hrest.twin hs h (suffix_of_cons_suffix hts) hout hkeep hafter
    exact ⟨blocks', last', first', more',
      .trivia (ht.kind ▸ htrivia) (ht.kind ▸ hends) hrest', hmoved⟩
  | .block hkind hblock hrest, first, stop', more, ts', h, hts, hout, hkeep, htwin => by
    have hbehind := hout.trans (suffix_of_cons_suffix (h ▸ hrest.suffix))
    obtain ⟨t', after', rfl, ht, hafter⟩ := htwin.tail (hbehind.trans hblock.suffix)
    obtain ⟨hfirst, hothers⟩ := keepParams_cons.mp hkeep
    obtain ⟨block', behind', hblock', hbehind'⟩ := hblock.twin hs rfl hts hbehind hfirst hafter
    obtain ⟨blocks', last', first', more', hrest', hmoved⟩ := hrest.twin hs h
      (hblock.suffix.trans (suffix_of_cons_suffix hts)) hout hothers hbehind'
    exact ⟨_, last', first', more', .block (ht.kind.trans hkind) hblock' hrest', hmoved⟩
  | .hashtable hkind hinner hrest, first, stop', more, ts', h, hts, hout, hkeep, htwin => by
    have hbehind := hout.trans (suffix_of_cons_suffix (h ▸ hrest.suffix))
    have htokens := suffix_of_cons_suffix hts
    obtain ⟨t', after', rfl, ht, hafter⟩ := htwin.tail (hbehind.trans hinner.suffix)
    rw [List.map_append] at hkeep
    obtain ⟨hfirst, hothers⟩ := keepParams_append.mp hkeep
    obtain ⟨inner', close', behind', hinner', hbehind'⟩ := hinner.twin hs htokens hbehind hfirst hafter
    obtain ⟨blocks', last', first', more', hrest', hmoved⟩ :=
      hrest.twin hs h (hinner.suffix.trans htokens) hout hothers hbehind'
    exact ⟨_, last', first', more', .hashtable (ht.kind.trans hkind) hinner' hrest', hmoved⟩
  | .token htrivia hbrace hends hrest, first, stop', more, ts', h, hts, hout, hkeep, htwin => by
    obtain ⟨t', after', rfl, ht, hafter⟩ := htwin.tail
      (hout.trans (suffix_of_cons_suffix (h ▸ hrest.suffix)))
    obtain ⟨blocks', last', first', more', hrest', hmoved⟩ :=
      hrest.twin hs h (suffix_of_cons_suffix hts) hout hkeep hafter
    exact ⟨blocks', last', first', more', .token (ht.kind ▸ htrivia) (ht.kind ▸ hbrace)
      (ht.kind ▸ hends) (ht.kind ▸ hrest'), hmoved⟩

/-- What stands between the braces of a table. -/
theorem ReadsHashtable.twin (hs : Stretch script edge out) {ts : List Token}
    {blocks : List ScriptBlock} {stop : Nat} {rest : List Token} :
    ReadsHashtable script ts blocks stop rest →
    ∀ {ts' : List Token}, ts <:+ script.tokens → out <:+ rest →
    KeepParams script edge out' (blocks.map .scriptBlock) → Twin a b out out' ts ts' →
    ∃ blocks' stop' rest', ReadsHashtable script' ts' blocks' stop' rest' ∧
      Twin a b out out' rest rest'
  | .closed hkind, ts', hts, hout, hkeep, htwin => by
    obtain ⟨t', after', rfl, ht, hafter⟩ := htwin.tail hout
    exact ⟨[], _, after', .closed (ht.kind.trans hkind), hafter⟩
  | .block hkind hblock hrest, ts', hts, hout, hkeep, htwin => by
    have hbehind := hout.trans hrest.suffix
    obtain ⟨t', after', rfl, ht, hafter⟩ := htwin.tail (hbehind.trans hblock.suffix)
    obtain ⟨hfirst, hothers⟩ := keepParams_cons.mp hkeep
    obtain ⟨block', behind', hblock', hbehind'⟩ := hblock.twin hs rfl hts hbehind hfirst hafter
    obtain ⟨blocks', stop', rest', hrest', htwin'⟩ := hrest.twin hs
      (hblock.suffix.trans (suffix_of_cons_suffix hts)) hout hothers hbehind'
    exact ⟨_, stop', rest', .block (ht.kind.trans hkind) hblock' hrest', htwin'⟩
  | .nested hkind hinner hrest, ts', hts, hout, hkeep, htwin => by
    have hbehind := hout.trans hrest.suffix
    have htokens := suffix_of_cons_suffix hts
    obtain ⟨t', after', rfl, ht, hafter⟩ := htwin.tail (hbehind.trans hinner.suffix)
    rw [List.map_append] at hkeep
    obtain ⟨hfirst, hothers⟩ := keepParams_append.mp hkeep
    obtain ⟨inner', close', behind', hinner', hbehind'⟩ := hinner.twin hs htokens hbehind hfirst hafter
    obtain ⟨blocks', stop', rest', hrest', htwin'⟩ := hrest.twin hs
      (hinner.suffix.trans htokens) hout hothers hbehind'
    exact ⟨_, stop', rest', .nested (ht.kind.trans hkind) hinner' hrest', htwin'⟩
  | .token hclose hbrace hrest, ts', hts, hout, hkeep, htwin => by
    obtain ⟨t', after', rfl, ht, hafter⟩ := htwin.tail (hout.trans hrest.suffix)
    obtain ⟨blocks', stop', rest', hrest', htwin'⟩ :=
      hrest.twin hs (suffix_of_cons_suffix hts) hout hkeep hafter
    exact ⟨blocks', stop', rest', .token (ht.kind ▸ hclose) (ht.kind ▸ hbrace) hrest', htwin'⟩

end

end Transport

end HelpAudit
