import HelpAudit.Proofs.Termination
import HelpAudit.Proofs.TreeViews

/-! Two lists of tokens side by side. They correspond token by token, except that the second may have
    block comments of its own, only not right after a keyword that declares a function. What tokens,
    offsets and errors have to have in common is left open in a `Link`. Parameter lists and parameter
    blocks read from such lists agree. -/

namespace HelpAudit

/-! ### Answers that agree -/

/-- Both answers are errors that correspond, or both are results that correspond. -/
inductive Agree {α β : Type} (error : ParseError → ParseError → Prop) (result : α → β → Prop) :
    Except ParseError α → Except ParseError β → Prop where
  | error {e e'} : error e e' → Agree error result (.error e) (.error e')
  | ok {a b} : result a b → Agree error result (.ok a) (.ok b)

/-- Computations that agree go on to computations that agree. What the first parts gave is known as an
    equation, for the steps that need to know where their input came from. -/
theorem Agree.bind {α β γ δ : Type} {error : ParseError → ParseError → Prop} {first : α → β → Prop}
    {result : γ → δ → Prop} {x : Except ParseError α} {y : Except ParseError β}
    {f : α → Except ParseError γ} {g : β → Except ParseError δ} (h : Agree error first x y)
    (hf : ∀ a b, x = .ok a → y = .ok b → first a b → Agree error result (f a) (g b)) :
    Agree error result (x >>= f) (y >>= g) := by
  cases h with
  | error he => exact .error he
  | ok hab => exact hf _ _ rfl rfl hab

theorem Agree.cases {α β : Type} {error : ParseError → ParseError → Prop} {result : α → β → Prop}
    {x : Except ParseError α} {y : Except ParseError β} (h : Agree error result x y) :
    (∃ e e', x = .error e ∧ y = .error e' ∧ error e e') ∨
      ∃ a b, x = .ok a ∧ y = .ok b ∧ result a b := by
  cases h with
  | error he => exact .inl ⟨_, _, rfl, rfl, he⟩
  | ok hab => exact .inr ⟨_, _, rfl, rfl, hab⟩

theorem Agree.map {α β γ δ : Type} {error : ParseError → ParseError → Prop} {first : α → β → Prop}
    {result : γ → δ → Prop} {x : Except ParseError α} {y : Except ParseError β} {f : α → γ}
    {g : β → δ} (h : Agree error first x y) (hf : ∀ a b, first a b → result (f a) (g b)) :
    Agree error result (x.map f) (y.map g) := by
  cases h with
  | error he => exact .error he
  | ok hab => exact .ok (hf _ _ hab)

/-! ### Links between two scripts -/

/-- What corresponds in two runs: tokens, offsets and errors, and how trees are compared. -/
structure Link where
  view : View
  token : Token → Token → Prop
  offset : Nat → Nat → Prop
  error : ParseError → ParseError → Prop

/-- The two scripts respect the link. -/
structure Link.Joins (link : Link) (script script' : Script) : Prop where
  kind : ∀ {t t'}, link.token t t' → t.kind = t'.kind
  value : ∀ {t t'}, link.token t t' → t.kind.isNameLike = true ∨ t.kind = .var → t.value = t'.value
  start : ∀ {t t'}, link.token t t' → link.offset t.start t'.start
  stop : ∀ {t t'}, link.token t t' → link.offset t.stop t'.stop
  zero : link.offset 0 0
  size : link.offset (Text.byteLength script.source) (Text.byteLength script'.source)
  max : ∀ {a a' b b'}, link.offset a a' → link.offset b b' → link.offset (max a b) (max a' b')
  extent : ∀ {a a' b b'}, link.offset a a' → link.offset b b' →
    link.view.extent (script.extent a b) = link.view.extent (script'.extent a' b')
  text : ∀ {a a' b b'}, link.offset a a' → link.offset b b' →
    link.view.text (script.text a b) = link.view.text (script'.text a' b')
  ends : ∀ {e e' : Extent}, link.view.extent e = link.view.extent e' →
    link.offset e.endOffset e'.endOffset
  fault : ∀ {a a' t t'} (cause : String → ParseError.Cause), link.offset a a' → link.token t t' →
    link.error (.ofOffset script.source a (cause t.value))
      (.ofOffset script'.source a' (cause t'.value))

/-! ### Token lists side by side -/

/-- Keywords that declare a function. -/
def TokenKind.declares : TokenKind → Bool
  | .keyword (.declare _) => true
  | _ => false

/-- The lists correspond token by token, but the second may have further block comments. The flag
    tells whether one may stand here. -/
inductive Aligned (link : Link) : Bool → List Token → List Token → Prop where
  | nil {free} : Aligned link free [] []
  | cons {free t t' ts ts'} : link.token t t' → Aligned link (!t.kind.declares) ts ts' →
    Aligned link free (t :: ts) (t' :: ts')
  | comment {c ts ts'} : c.kind = .comment .block → Aligned link true ts ts' →
    Aligned link true ts (c :: ts')

/-- Where a comment may not stand there is none, so the flag can be raised. -/
theorem Aligned.relax {link : Link} {free : Bool} {ts ts' : List Token}
    (h : Aligned link free ts ts') : Aligned link true ts ts' := by
  cases h with
  | nil => exact .nil
  | cons ht hts => exact .cons ht hts
  | comment hc hts => exact .comment hc hts

/-- Both lists are empty, or they start with corresponding tokens. -/
def Fronts (link : Link) (ts ts' : List Token) : Prop :=
  (ts = [] ∧ ts' = []) ∨ ∃ t t' rest rest', ts = t :: rest ∧ ts' = t' :: rest' ∧ link.token t t' ∧
    Aligned link (!t.kind.declares) rest rest'

theorem Fronts.aligned {link : Link} {ts ts' : List Token} (h : Fronts link ts ts') :
    Aligned link true ts ts' := by
  rcases h with ⟨rfl, rfl⟩ | ⟨t, t', rest, rest', rfl, rfl, ht, hrest⟩
  · exact .nil
  · exact .cons ht hrest

section Runs

variable {link : Link} {script script' : Script} (hj : link.Joins script script')

include hj

/-- Where tokens are passed over, comments among them, the next ones correspond. -/
theorem Aligned.dropWhile {p : TokenKind → Bool} (hp : p (.comment .block) = true) {free : Bool}
    {ts ts' : List Token} (h : Aligned link free ts ts') :
    Fronts link (ts.dropWhile fun t => p t.kind) (ts'.dropWhile fun t => p t.kind) := by
  induction h with
  | nil => exact .inl ⟨rfl, rfl⟩
  | @cons _ t t' ts ts' ht hts ih =>
    rw [List.dropWhile_cons, List.dropWhile_cons, ← hj.kind ht]
    split
    · exact ih
    · exact .inr ⟨t, t', ts, ts', rfl, rfl, ht, hts⟩
  | @comment c ts ts' hc _ ih =>
    rw [List.dropWhile_cons_of_pos (by rw [hc]; exact hp)]
    exact ih

theorem Aligned.skipTrivia {free : Bool} {ts ts' : List Token} (h : Aligned link free ts ts') :
    Fronts link (skipTrivia ts) (skipTrivia ts') :=
  h.dropWhile hj rfl

theorem Aligned.skipSeparators {free : Bool} {ts ts' : List Token} (h : Aligned link free ts ts') :
    Fronts link (skipSeparators ts) (skipSeparators ts') :=
  h.dropWhile hj rfl

end Runs

/-! ### Segments -/

theorem optionRel_cases {α β : Type} {r : α → β → Prop} {x : Option α} {y : Option β}
    (h : Option.Rel r x y) : (x = none ∧ y = none) ∨ ∃ a b, x = some a ∧ y = some b ∧ r a b := by
  cases h with
  | none => exact .inl ⟨rfl, rfl⟩
  | some hab => exact .inr ⟨_, _, rfl, rfl, hab⟩

/-- How far a default value has come, without the offsets. -/
def DefaultValue.stage : DefaultValue → Option Bool
  | .absent => none
  | .announced => some false
  | .opened _ => some false
  | .present _ => some true

theorem DefaultValue.stage_eq_none (d : DefaultValue) : d.stage = none ↔ d = .absent := by
  cases d <;> simp [stage]

theorem DefaultValue.stage_read (d : DefaultValue) (t : Token) :
    (d.read t).stage = d.stage.map (· || !t.kind.isTrivia) := by
  cases htrivia : t.kind.isTrivia <;> cases d <;> simp [read, stage, htrivia]

namespace Segment

/-- Two segments of parameter lists that have come equally far; their comments may differ. -/
structure Like (link : Link) (s s' : Segment) : Prop where
  span : Option.Rel (fun p p' => link.offset p.1 p'.1 ∧ link.offset p.2 p'.2) s.span s'.span
  name : s.name = s'.name
  attributeStart : Option.Rel link.offset s.attributeStart s'.attributeStart
  attributes : s.attributes.map link.view.text = s'.attributes.map link.view.text
  stage : s.default.stage = s'.default.stage

/-- Two segments of which nothing has been read. -/
theorem Like.empty (link : Link) : Like link {} {} := ⟨.none, rfl, .none, rfl, rfl⟩

variable {link : Link} {script script' : Script} {s s' : Segment} {t t' : Token}

theorem Like.touch (hj : link.Joins script script') (h : Like link s s') (ht : link.token t t') :
    Like link (s.touch t) (s'.touch t') := by
  refine ⟨?_, h.name, h.attributeStart, h.attributes, h.stage⟩
  simp only [Segment.touch]
  rcases optionRel_cases h.span with ⟨hs, hs'⟩ | ⟨_, _, hs, hs', hspan⟩
  · rw [hs, hs']
    exact .some ⟨hj.start ht, hj.stop ht⟩
  · rw [hs, hs']
    exact .some ⟨hspan.1, hj.stop ht⟩

theorem Like.default_read (hj : link.Joins script script') (h : Like link s s')
    (ht : link.token t t') :
    Like link { s with default := s.default.read t } { s' with default := s'.default.read t' } := by
  refine ⟨h.span, h.name, h.attributeStart, h.attributes, ?_⟩
  simp only [DefaultValue.stage_read, h.stage, hj.kind ht]

/-- What a token does to a segment apart from its default value's progress. -/
def absorb (script : Script) (s : Segment) (depth : Nat) (t : Token) : Segment × Nat :=
  match t.kind with
  | .newline => (s, depth)
  | .comment _ =>
    (if depth == 0 && s.name.isNone then { s with comments := s.comments ++ [t.value] } else s, depth)
  | .opening opener =>
    ((if (depth == 0 && s.name.isNone) && opener = .bracket then
      { s with attributeStart := some t.start } else s).touch t, depth + 1)
  | .closing _ =>
    ((match depth - 1, s.attributeStart with
      | 0, some start =>
        { s with
          attributeStart := none
          attributes := s.attributes ++ [script.text start t.stop] }
      | _, _ => s).touch t, depth - 1)
  | .var =>
    ((if depth == 0 && s.name.isNone then { s with name := some t.value } else s).touch t, depth)
  | .equals =>
    ((if depth = 0 && s.name.isSome && s.default = .absent then { s with default := .announced }
      else s).touch t, depth)
  | _ => (s.touch t, depth)

theorem read_eq_absorb (script : Script) (s : Segment) (depth : Nat) (t : Token) :
    s.read script depth t = { s with default := s.default.read t }.absorb script depth t := rfl

/-- A comment more makes no difference. -/
theorem Like.read_comment (script' : Script) {c : Token} (hc : c.kind = .comment .block)
    (h : Like link s s') (depth : Nat) : Like link s (s'.read script' depth c).1 ∧ (s'.read script' depth c).2 = depth := by
  have hstage : (s'.default.read c).stage = s'.default.stage := by
    rw [DefaultValue.stage_read, hc]
    cases s'.default.stage <;> simp [TokenKind.isTrivia, TokenKind.isComment]
  have hread : Like link s { s' with default := s'.default.read c } :=
    ⟨h.span, h.name, h.attributeStart, h.attributes, h.stage.trans hstage.symm⟩
  simp only [read_eq_absorb, absorb, hc, and_true]
  split
  · exact ⟨hread.span, hread.name, hread.attributeStart, hread.attributes, hread.stage⟩
  · exact hread

/-- Corresponding tokens have the same effect on segments that have come equally far. -/
theorem Like.absorb (hj : link.Joins script script') (h : Like link s s') (ht : link.token t t')
    (depth : Nat) : Like link (s.absorb script depth t).1 (s'.absorb script' depth t').1 ∧
      (s.absorb script depth t).2 = (s'.absorb script' depth t').2 := by
  simp only [Segment.absorb, ← hj.kind ht, ← h.name]
  cases hkind : t.kind with
  | newline => exact ⟨h, rfl⟩
  | comment style =>
    refine ⟨?_, rfl⟩
    simp only
    split
    · exact ⟨h.span, rfl, h.attributeStart, h.attributes, h.stage⟩
    · exact h
  | opening opener =>
    refine ⟨Like.touch hj ?_ ht, rfl⟩
    split
    · exact ⟨h.span, rfl, .some (hj.start ht), h.attributes, h.stage⟩
    · exact h
  -- a closing token ends an open attribute when it brings the depth back to zero, on both sides alike
  | closing closer =>
    refine ⟨Like.touch hj ?_ ht, rfl⟩
    rcases optionRel_cases h.attributeStart with ⟨hs, hs'⟩ | ⟨_, _, hs, hs', hstart⟩
    · rw [hs, hs']
      cases depth - 1 <;> exact h
    · rw [hs, hs']
      cases depth - 1 with
      | zero =>
        refine ⟨h.span, rfl, .none, ?_, h.stage⟩
        simp only [List.map_append, h.attributes, List.map_cons, hj.text hstart (hj.stop ht),
          List.map_nil]
      | succ n => exact h
  | var =>
    refine ⟨Like.touch hj ?_ ht, rfl⟩
    split
    · refine ⟨h.span, ?_, h.attributeStart, h.attributes, h.stage⟩
      rw [hj.value ht (.inr hkind)]
    · exact h
  | equals =>
    refine ⟨Like.touch hj ?_ ht, rfl⟩
    have habsent : s.default = .absent ↔ s'.default = .absent := by
      rw [← DefaultValue.stage_eq_none, h.stage, DefaultValue.stage_eq_none]
    simp only [habsent]
    split
    · exact ⟨h.span, rfl, h.attributeStart, h.attributes, rfl⟩
    · exact h
  | _ => exact ⟨h.touch hj ht, rfl⟩

/-- Corresponding tokens bring segments equally far. -/
theorem Like.read (hj : link.Joins script script') (h : Like link s s') (ht : link.token t t')
    (depth : Nat) : Like link (s.read script depth t).1 (s'.read script' depth t').1 ∧
      (s.read script depth t).2 = (s'.read script' depth t').2 := by
  rw [read_eq_absorb, read_eq_absorb]
  exact (h.default_read hj ht).absorb hj ht depth

/-- Segments that have come equally far are parameters that look the same. -/
theorem Like.parameter? (hj : link.Joins script script') (h : Like link s s') :
    (s.parameter? script).toList.map (Parameter.viewed link.view) =
      (s'.parameter? script').toList.map (Parameter.viewed link.view) := by
  obtain ⟨hspan, hname, -, hattributes, hstage⟩ := h
  simp only [Segment.parameter?, ← hname]
  cases s.name with
  | none => rfl
  | some name =>
    rcases optionRel_cases hspan with ⟨hs, hs'⟩ | ⟨_, _, hs, hs', hspan⟩
    · rw [hs, hs']
    · have hextent := hj.extent hspan.1 hspan.2
      rw [hs, hs']
      cases hd : s.default <;> cases hd' : s'.default <;> rw [hd, hd'] at hstage <;>
        simp [DefaultValue.stage] at hstage <;>
        simp [Parameter.viewed, hextent, hattributes]

end Segment

/-! ### Parameters -/

theorem parameterList_comment {script : Script} {opener c : Token} (hc : c.kind = .comment .block)
    {s : Segment} {depth : Nat} {ts : List Token} : parameterList script opener s depth (c :: ts) =
      parameterList script opener (s.read script depth c).1 (s.read script depth c).2 ts := by
  simp [parameterList, hc]

section Parameters

variable {link : Link} {script script' : Script} (hj : link.Joins script script')

include hj

theorem Link.Joins.fault_agree {α β : Type} {result : α → β → Prop} {t t' : Token} {a a' : Nat}
    (cause : String → ParseError.Cause) (ha : link.offset a a') (ht : link.token t t') :
    Agree link.error result (script.fault a (cause t.value)) (script'.fault a' (cause t'.value)) :=
  .error (hj.fault cause ha ht)

/-- Parameter lists that look the same, with what is left behind them. -/
structure ParameterList.Like (link : Link) (l l' : ParameterList) : Prop where
  parameters : l.parameters.map (Parameter.viewed link.view) =
    l'.parameters.map (Parameter.viewed link.view)
  close : link.token l.close l'.close
  rest : Aligned link true l.rest l'.rest

/-- Parameter lists behind corresponding openers agree, whatever comments the second one has of its own. -/
theorem parameterList_agree {opener opener' : Token} (ho : link.token opener opener') {free : Bool}
    {ts ts' : List Token} (h : Aligned link free ts ts') : ∀ {s s' : Segment} {depth : Nat},
    s.Like link s' → Agree link.error (ParameterList.Like link)
      (parameterList script opener s depth ts) (parameterList script' opener' s' depth ts') := by
  -- a pair of tokens takes the same branch on both sides; a comment of the second list is read alone
  induction h with
  | nil =>
    intro s s' depth hs
    exact hj.fault_agree (fun _ => .missingParen) (hj.start ho) ho
  | @cons _ t t' ts ts' ht hts ih =>
    intro s s' depth hs
    rw [parameterList, parameterList, ← hj.kind ht]
    split
    · exact .ok ⟨hs.parameter? hj, ht, hts.relax⟩
    · split
      · refine (ih (.empty link)).bind fun l l' _ _ hl => .ok ⟨?_, hl.close, hl.rest⟩
        simp only [List.map_append, hs.parameter? hj, hl.parameters]
      · obtain ⟨hread, hdepth⟩ := hs.read hj ht depth
        simp only [hdepth]
        exact ih hread
  | @comment c ts ts' hc _ ih =>
    intro s s' depth hs
    obtain ⟨hread, hdepth⟩ := hs.read_comment script' hc depth
    rw [parameterList_comment hc, hdepth]
    exact ih hread

/-- Attribute groups agree, from the start or from inside a group that is open at both sides. -/
theorem attributeGroups_agree {free : Bool} {ts ts' : List Token} (h : Aligned link free ts ts') :
    ∀ {current current' : Option (Token × Nat)},
    Option.Rel (fun c c' => link.token c.1 c'.1 ∧ c.2 = c'.2) current current' →
    Agree link.error (fun r r' => r.1.map link.view.text = r'.1.map link.view.text ∧
      Fronts link r.2 r'.2)
      (attributeGroups script current ts) (attributeGroups script' current' ts') := by
  induction h with
  | nil =>
    intro current current' hcurrent
    cases hcurrent with
    | none => exact .ok ⟨rfl, .inl ⟨rfl, rfl⟩⟩
    | some hopener => exact hj.fault_agree .missingCloser (hj.start hopener.1) hopener.1
  | @cons _ t t' ts ts' ht hts ih =>
    intro current current' hcurrent
    cases hcurrent with
    | none =>
      rw [attributeGroups, attributeGroups, ← hj.kind ht]
      split
      · exact ih .none
      · split
        · exact ih (.some ⟨ht, rfl⟩)
        · exact .ok ⟨rfl, .inr ⟨t, t', ts, ts', rfl, rfl, ht, hts⟩⟩
    | @some c c' hopener =>
      obtain ⟨opener, depth⟩ := c
      obtain ⟨opener', _⟩ := c'
      obtain ⟨ho, rfl⟩ := hopener
      rw [attributeGroups, attributeGroups, ← hj.kind ht]
      split
      · exact ih (.some ⟨ho, rfl⟩)
      · split
        · split
          · refine (ih .none).bind fun r r' _ _ hr => .ok ⟨?_, hr.2⟩
            simp only [List.map_cons, hj.text (hj.start ho) (hj.stop ht), hr.1]
          · exact ih (.some ⟨ho, rfl⟩)
        · exact ih (.some ⟨ho, rfl⟩)
  | @comment c ts ts' hc _ ih =>
    intro current current' hcurrent
    have hcomment : attributeGroups script' current' (c :: ts') =
        attributeGroups script' current' ts' := by
      rcases current' with _ | ⟨opener, depth⟩ <;> rw [attributeGroups, hc] <;> rfl
    rw [hcomment]
    exact ih hcurrent

/-- Parameter blocks that look the same, or none, with what is left behind them. -/
def LikeParams (link : Link) (r r' : Option ParamBlock × List Token) : Prop :=
  r.1.map (ParamBlock.viewed link.view) = r'.1.map (ParamBlock.viewed link.view) ∧
    Aligned link true r.2 r'.2

/-- Parameter blocks agree: both are there, or neither. -/
theorem paramBlock_agree {free : Bool} {ts ts' : List Token} (h : Aligned link free ts ts') :
    Agree link.error (LikeParams link) (paramBlock script ts) (paramBlock script' ts') := by
  have hnone : Agree link.error (LikeParams link) (pure (none, ts)) (pure (none, ts')) :=
    .ok ⟨rfl, h.relax⟩
  rw [paramBlock, paramBlock]
  refine (attributeGroups_agree hj h .none).bind ?_
  rintro ⟨attributes, rest⟩ ⟨attributes', rest'⟩ hread hread' ⟨hattributes, hrest⟩
  rcases hrest with ⟨rfl, rfl⟩ | ⟨keyword, keyword', after, after', rfl, rfl, hk, hafter⟩
  · exact hnone
  -- only behind `param` the parser looks further; every other way gives no block
  by_cases hparam : keyword.kind = .keyword .param
  · rcases hafter.skipTrivia hj with ⟨hs, hs'⟩ | ⟨opener, opener', inner, inner', hs, hs', ho, hinner⟩
    · simp only [← hj.kind hk, hparam, hs, hs']
      exact hnone
    · simp only [← hj.kind hk, hparam, hs, hs', ← hj.kind ho]
      split
      · refine (parameterList_agree hj ho hinner (.empty link)).bind fun l l' _ _ hl => ?_
        have hstart : link.offset (((skipTrivia ts).head?.map (·.start)).getD keyword.start)
            (((skipTrivia ts').head?.map (·.start)).getD keyword'.start) := by
          rcases h.skipTrivia hj with ⟨hs, hs'⟩ | ⟨t, t', _, _, hs, hs', ht, -⟩
          · rw [hs, hs']
            exact hj.start hk
          · rw [hs, hs']
            exact hj.start ht
        refine .ok ⟨?_, hl.rest⟩
        simp only [Option.map_some, ParamBlock.viewed, hattributes, hl.parameters,
          hj.extent hstart (hj.stop hl.close)]
      · exact hnone
  · have hparam' : keyword'.kind ≠ .keyword .param := hj.kind hk ▸ hparam
    simp only
    split
    · exact absurd ‹keyword.kind = _› hparam
    · split
      · exact absurd ‹keyword'.kind = _› hparam'
      · exact hnone

theorem inlineParameters_agree {free : Bool} {ts ts' : List Token} (h : Aligned link free ts ts') :
    Agree link.error (fun r r' => r.1.map (·.map (Parameter.viewed link.view)) =
        r'.1.map (·.map (Parameter.viewed link.view)) ∧ Fronts link r.2 r'.2)
      (inlineParameters script ts) (inlineParameters script' ts') := by
  rw [inlineParameters, inlineParameters]
  rcases h.skipTrivia hj with ⟨hs, hs'⟩ | ⟨opener, opener', inner, inner', hs, hs', ho, hinner⟩
  · rw [hs, hs']
    exact .ok ⟨rfl, .inl ⟨rfl, rfl⟩⟩
  · simp only [hs, hs', ← hj.kind ho]
    split
    · refine (parameterList_agree hj ho hinner (.empty link)).bind fun l l' _ _ hl => ?_
      exact .ok ⟨by simp only [Option.map_some, hl.parameters], hl.rest.skipTrivia hj⟩
    · exact .ok ⟨rfl, .inr ⟨opener, opener', inner, inner', rfl, rfl, ho, hinner⟩⟩

/-- Whether a keyword opens a named block depends on the next token that is no trivia, and those correspond. -/
theorem namedBlockKind?_agree {t t' : Token} {free : Bool} {ts ts' : List Token}
    (ht : link.token t t') (h : Aligned link free ts ts') :
    namedBlockKind? (t :: ts) = namedBlockKind? (t' :: ts') := by
  have hnext : nextKind? ts = nextKind? ts' := by
    simp only [nextKind?]
    rcases h.skipTrivia hj with ⟨hs, hs'⟩ | ⟨u, u', _, _, hs, hs', hu, -⟩
    · rw [hs, hs']
    · rw [hs, hs', List.head?_cons, List.head?_cons, Option.map_some, Option.map_some, hj.kind hu]
  simp only [namedBlockKind?, hj.kind ht, hnext]

end Parameters

end HelpAudit
