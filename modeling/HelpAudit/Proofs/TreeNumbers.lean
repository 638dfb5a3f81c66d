import HelpAudit.Proofs.CorrectionRanges
import HelpAudit.Proofs.TreePresentation

/-! The numbers of trees that were read. A reader takes every number of 64 bits and no other, so a function
    may stand in the last column that there is. No column comes after that one, and a finding about such a
    function breaks the analysis off; in every other case a correction starts one column behind its
    function. -/

namespace HelpAudit

open Json (wordLimit required defaulting optional list? word? fields?)

/-! ### What readers return -/

/-- Whatever is read has the property. -/
def Gives {α : Type} (P : α → Prop) (read : Json → Option α) : Prop :=
  ∀ json a, read json = some a → P a

section

variable {α : Type} {P : α → Prop} {read : Json → Option α} {value : Option Json}

theorem Gives.required (h : Gives P read) {a : α} (ha : required read value = some a) : P a := by
  cases value with
  | none => cases ha
  | some json => exact h json a ha

theorem Gives.defaulting (h : Gives P read) {default a : α} (hdefault : P default)
    (ha : defaulting default read value = some a) : P a := by
  cases value with
  | none =>
    cases ha
    exact hdefault
  | some json => exact h json a ha

theorem Gives.optional (h : Gives P read) {a : Option α} (ha : optional read value = some a) :
    ∀ b ∈ a, P b := by
  rintro b rfl
  unfold Json.optional at ha
  split at ha
  · cases ha
  · obtain ⟨b', hb, heq⟩ := Option.map_eq_some_iff.mp ha
    cases heq
    exact h _ _ hb
  · cases ha

theorem Gives.mapM (h : Gives P read) {items : List Json} {as : List α} (ha : items.mapM read = some as) :
    ∀ a ∈ as, P a := by
  induction items generalizing as with
  | nil =>
    cases ha
    exact fun _ h => absurd h List.not_mem_nil
  | cons item items ih =>
    rw [List.mapM_cons] at ha
    obtain ⟨a, hitem, ha⟩ := Option.bind_eq_some_iff.mp ha
    obtain ⟨rest, hrest, ha⟩ := Option.bind_eq_some_iff.mp ha
    cases ha
    exact List.forall_mem_cons.mpr ⟨h item a hitem, ih hrest⟩

theorem gives_list {read : Nat → Json → Option α} {room : Nat} (h : ∀ k < room, Gives P (read k)) :
    Gives (fun as => ∀ a ∈ as, P a) (list? read room) := by
  intro json as hread
  cases room with
  | zero => cases hread
  | succ room =>
    cases json with
    | arr items => exact (h room (Nat.lt_succ_self room)).mapM hread
    | _ => cases hread

end

/-- A number that is read has 64 bits. -/
theorem gives_word : Gives (· < wordLimit) word? := by
  intro json n h
  cases json with
  | nat value =>
    rw [word?, Option.ite_none_right_eq_some] at h
    obtain ⟨hlt, heq⟩ := h
    cases heq
    exact hlt
  | _ => cases h

/-- A record has a property that follows from those of its fields' values. -/
theorem gives_fields {α : Type} {P : α → Prop} {names : List String} {build : List (Option Json) → Option α}
    (h : ∀ values a, build values = some a → P a) : Gives P fun json => (fields? names json).bind build := by
  intro json a ha
  obtain ⟨values, -, ha⟩ := Option.bind_eq_some_iff.mp ha
  exact h values a ha

/-! ### Records -/

theorem gives_extent (room : Nat) : Gives Extent.InWords (Extent.ofJson? room) := by
  cases room with
  | zero =>
    intro _ _ h
    cases h
  | succ room =>
    refine gives_fields fun values e he => ?_
    split at he
    · simp only [Option.bind_eq_bind, Option.bind_eq_some_iff] at he
      obtain ⟨_, -, _, h2, _, h3, _, h4, _, h5, _, h6, _, h7, _, -, he⟩ := he
      cases he
      exact ⟨gives_word.required h2, gives_word.required h3, gives_word.required h4, gives_word.required h5,
        gives_word.defaulting (by decide) h6, gives_word.defaulting (by decide) h7⟩
    · cases he

theorem gives_commentGroup (room : Nat) : Gives (·.extent.InWords) (CommentGroup.ofJson? room) := by
  cases room with
  | zero =>
    intro _ _ h
    cases h
  | succ room =>
    refine gives_fields fun values g hg => ?_
    split at hg
    · simp only [Option.bind_eq_bind, Option.bind_eq_some_iff] at hg
      obtain ⟨_, -, _, h2, hg⟩ := hg
      cases hg
      exact (gives_extent room).required h2
    · cases hg

theorem gives_parameter (room : Nat) : Gives (fun p => (Node.parameter p).InWords) (Parameter.ofJson? room) := by
  cases room with
  | zero =>
    intro _ _ h
    cases h
  | succ room =>
    refine gives_fields fun values p hp => ?_
    split at hp
    · simp only [Option.bind_eq_bind, Option.bind_eq_some_iff] at hp
      obtain ⟨_, -, _, h2, _, -, _, -, _, -, hp⟩ := hp
      cases hp
      refine Node.inWords_iff.mpr ⟨?_, fun _ h => absurd h List.not_mem_nil⟩
      exact List.forall_mem_singleton.mpr ((gives_extent room).required h2)
    · cases hp

theorem gives_paramBlock (room : Nat) : Gives (fun b => (Node.paramBlock b).InWords) (ParamBlock.ofJson? room) := by
  cases room with
  | zero =>
    intro _ _ h
    cases h
  | succ room =>
    refine gives_fields fun values b hb => ?_
    split at hb
    · simp only [Option.bind_eq_bind, Option.bind_eq_some_iff] at hb
      obtain ⟨_, h1, _, -, _, h3, hb⟩ := hb
      cases hb
      have hparameters := (gives_list fun k _ => gives_parameter k).defaulting
        (fun _ h => absurd h List.not_mem_nil) h3
      exact Node.inWords_iff.mpr ⟨List.forall_mem_singleton.mpr ((gives_extent room).required h1),
        List.forall_mem_map.mpr hparameters⟩
    · cases hb

/-! ### Trees -/

section

variable {room : Nat}
  (hblock : ∀ k < room, ∀ stored, Gives (fun b => (Node.scriptBlock b).InWords) (ScriptBlock.ofJson? stored k))

include hblock

/-- A statement has numbers of 64 bits when the script blocks in it have. -/
theorem gives_statement (stored : Bool) :
    Gives (fun s => s.node.InWords) (Statement.ofJson? stored room) := by
  intro json statement hread
  cases room with
  | zero => cases hread
  | succ room =>
    rw [Statement.ofJson?_succ, Option.ite_none_right_eq_some] at hread
    obtain ⟨⟨tag, inner⟩, -, hread⟩ := Option.bind_eq_some_iff.mp hread.2
    obtain ⟨values, -, hread⟩ := Option.bind_eq_some_iff.mp hread
    have hbody := hblock room (Nat.lt_succ_self room) true
    unfold Statement.ofFields? at hread
    split at hread
    · simp only [Option.bind_eq_bind, Option.bind_eq_some_iff] at hread
      obtain ⟨_, -, _, -, _, h3, parameters, h4, _, h5, _, h6, hread⟩ := hread
      cases hread
      -- a function: its own numbers are those of the extent and of the comment groups
      have hparameters := (gives_list fun k _ => gives_parameter k).optional h4
      have hcomments := (gives_list fun k _ => gives_commentGroup k).defaulting
        (fun _ h => absurd h List.not_mem_nil) h6
      refine Node.inWords_iff.mpr ⟨List.forall_mem_cons.mpr ⟨(gives_extent room).required h3,
        List.forall_mem_map.mpr hcomments⟩, ?_⟩
      refine List.forall_mem_append.mpr ⟨List.forall_mem_map.mpr ?_,
        List.forall_mem_singleton.mpr (hbody.required h5)⟩
      cases parameters with
      | none => exact fun _ h => absurd h List.not_mem_nil
      | some parameters => exact hparameters parameters rfl
    · simp only [Option.bind_eq_bind, Option.bind_eq_some_iff] at hread
      obtain ⟨_, h1, _, h2, hread⟩ := hread
      cases hread
      have hblocks := (gives_list fun k hk => hblock k (Nat.lt_succ_of_lt hk) true).defaulting
        (fun _ h => absurd h List.not_mem_nil) h2
      exact Node.inWords_iff.mpr ⟨List.forall_mem_singleton.mpr ((gives_extent room).required h1),
        List.forall_mem_map.mpr hblocks⟩
    · cases hread

/-- A named block has numbers of 64 bits when its statements have. -/
theorem gives_namedBlock (stored : Bool) :
    Gives (fun b => (Node.namedBlock b).InWords) (NamedBlock.ofJson? stored room) := by
  cases room with
  | zero =>
    intro _ _ h
    cases h
  | succ room =>
    intro json block hread
    rw [NamedBlock.ofJson?, Statement.listOfJson?_eq] at hread
    obtain ⟨values, -, hread⟩ := Option.bind_eq_some_iff.mp hread
    split at hread
    · simp only [Option.bind_eq_bind, Option.bind_eq_some_iff] at hread
      obtain ⟨_, -, _, -, _, h3, _, h4, hread⟩ := hread
      cases hread
      have hstatements := (gives_list fun k hk => gives_statement
        (fun j hj => hblock j (by omega)) stored).defaulting (fun _ h => absurd h List.not_mem_nil) h4
      exact Node.inWords_iff.mpr ⟨List.forall_mem_singleton.mpr ((gives_extent room).required h3),
        List.forall_mem_map.mpr hstatements⟩
    · cases hread

end

/-- The parts of a script block are read with less room. -/
theorem gives_scriptBlock (stored : Bool) (room : Nat) :
    Gives (fun b => (Node.scriptBlock b).InWords) (ScriptBlock.ofJson? stored room) := by
  induction room using Nat.strong_induction_on generalizing stored with
  | _ room ih =>
    intro json block hread
    cases room with
    | zero => cases hread
    | succ room =>
      rw [ScriptBlock.ofJson?, NamedBlock.listOfJson?_eq] at hread
      obtain ⟨values, -, hread⟩ := Option.bind_eq_some_iff.mp hread
      split at hread
      · simp only [Option.bind_eq_bind, Option.bind_eq_some_iff] at hread
        obtain ⟨_, h1, params, h2, _, h3, hread⟩ := hread
        cases hread
        have hparams := (gives_paramBlock room).optional h2
        -- the script blocks inside the statements have less room, which is what the induction is on
        have hblocks := (gives_list fun k hk => gives_namedBlock
          (fun j hj stored => ih j (by omega) stored) stored).defaulting
          (fun _ h => absurd h List.not_mem_nil) h3
        refine Node.inWords_iff.mpr ⟨List.forall_mem_singleton.mpr ((gives_extent room).required h1), ?_⟩
        refine List.forall_mem_append.mpr ⟨?_, List.forall_mem_map.mpr hblocks⟩
        cases params with
        | none => exact fun _ h => absurd h List.not_mem_nil
        | some block => exact List.forall_mem_singleton.mpr (hparams block rfl)
      · cases hread

/-- All numbers of a tree that was read from a text have 64 bits. -/
theorem ScriptBlock.inWords_of_ofText? {text : String} {tree : ScriptBlock}
    (h : ScriptBlock.ofText? text = some (some tree)) : (Node.scriptBlock tree).InWords := by
  obtain ⟨json, hjson, -⟩ := Option.bind_eq_some_iff.mp h
  rw [ScriptBlock.ofText?_eq hjson] at h
  exact (gives_scriptBlock false treeNesting).optional h tree rfl

theorem FunctionDefinition.inWords_of_mem {tree : ScriptBlock} (h : (Node.scriptBlock tree).InWords)
    {f : FunctionDefinition} (hf : f ∈ (Node.scriptBlock tree).functions) : f.extent.InWords := by
  rw [ParameterDocumentation.functions_eq] at hf
  obtain ⟨node, hnode, hsome⟩ := List.mem_filterMap.mp hf
  obtain rfl : node = .functionDefinition f := by
    cases node <;> cases hsome
    rfl
  exact h _ hnode _ List.mem_cons_self

/-! ### Corrections -/

namespace ParameterDocumentation

/-- The function stands in any column of 64 bits. -/
theorem ofText?_scriptAt {column : Nat} (h : column < wordLimit) :
    ScriptBlock.ofText? (scriptAt column).toJson.compact = some (some (scriptAt column)) := by
  have hone : 1 < wordLimit := by decide
  have hzero : 0 < wordLimit := by decide
  have hextent : (⟨none, 1, column, 1, column, 0, 0, ""⟩ : Extent).InWords :=
    ⟨hone, h, hone, h, hzero, hzero⟩
  have hleaf : ∀ n : Node, n.children = [] → n.ownExtents = [_] → n.InWords := fun n hchildren hown =>
    Node.inWords_iff.mpr ⟨hown ▸ List.forall_mem_singleton.mpr hextent,
      hchildren ▸ fun _ h => absurd h List.not_mem_nil⟩
  have hwords : (Node.scriptBlock (scriptAt column)).InWords := by
    refine Node.inWords_iff.mpr ⟨List.forall_mem_singleton.mpr hextent, List.forall_mem_singleton.mpr ?_⟩
    refine Node.inWords_iff.mpr ⟨List.forall_mem_singleton.mpr hextent, List.forall_mem_singleton.mpr ?_⟩
    refine Node.inWords_iff.mpr ⟨List.forall_mem_singleton.mpr hextent, List.forall_mem_cons.mpr
      ⟨hleaf _ rfl rfl, List.forall_mem_singleton.mpr (hleaf _ rfl rfl)⟩⟩
  have hread := ScriptBlock.ofText?_written hwords _ List.mem_cons_self
  rw [hread]
  rfl

/-- In a tree that was read from a text, every column has 64 bits. The correction for a function starts one
    column behind the function, except that behind the last column there is none. An analysis with this
    rule breaks off exactly if the rule is on and a finding is due about a function in the last column;
    otherwise it ends with findings, and each has the correction of its function. -/
theorem corrections_of_read_tree {text : String} {tree : ScriptBlock}
    (h : ScriptBlock.ofText? text = some (some tree)) :
    (∀ f ∈ (Node.scriptBlock tree).functions, f.extent.startColumn < wordLimit ∧
      ((∃ c, correction f = .ok c ∧ c.startColumn = f.extent.startColumn + 1) ↔
        f.extent.startColumn + 1 ≠ wordLimit) ∧
      (correction f = .error .overflow ↔ f.extent.startColumn + 1 = wordLimit)) ∧
    ∀ (engine : Engine) (evaluator : Evaluator), engine.registry.rules = [rule evaluator] →
      ∀ (clock : String → UInt64) (file : Option String),
        ((engine.analyzeTreeText clock text file).outcome = .error .overflow ↔
          engine.config.isEnabled info.name = true ∧ SomeOverflows evaluator [] (functionsIn tree)) ∧
        ((engine.analyzeTreeText clock text file).outcome ≠ .error .overflow →
          ∃ found, (engine.analyzeTreeText clock text file).outcome = .ok found ∧
            ∀ d ∈ found, ∃ f ∈ (Node.scriptBlock tree).functions, ∃ c,
              d.extent = f.extent ∧ d.corrections = [c] ∧ correction f = .ok c ∧
                c.startColumn = f.extent.startColumn + 1) := by
  constructor
  · intro f hf
    have hcolumn := (FunctionDefinition.inWords_of_mem (ScriptBlock.inWords_of_ofText? h) hf).startColumn
    refine ⟨hcolumn, ?_⟩
    by_cases hlast : f.extent.startColumn + 1 = wordLimit
    · have hnone := correction_overflow (Nat.not_lt.mpr (Nat.le_of_eq hlast.symm))
      refine ⟨iff_of_false ?_ (not_not_intro hlast), iff_of_true hnone hlast⟩
      rintro ⟨c, hc, -⟩
      rw [hnone] at hc
      cases hc
    · have hsome := correction_of_correctable (Nat.lt_of_le_of_ne hcolumn hlast)
      refine ⟨iff_of_true ⟨_, hsome, rfl⟩ hlast, iff_of_false ?_ hlast⟩
      intro hnone
      rw [hsome] at hnone
      cases hnone
  · intro engine evaluator hengine clock file
    have htext : engine.analyzeTreeText clock text file =
        engine.analyze clock (some tree) (file <|> tree.extent.file) := by
      rw [Engine.analyzeTreeText, h]
      rfl
    rw [htext]
    rcases analyze_reportsAll hengine clock tree (file <|> tree.extent.file) with
      ⟨hon, hover, hfailed⟩ | ⟨hfits, found, hfound, hreports⟩
    · exact ⟨iff_of_true hfailed ⟨hon, hover⟩, fun hne => absurd hfailed hne⟩
    · refine ⟨iff_of_false (fun hfailed => ?_) hfits, fun _ => ⟨found, hfound, fun d hd => ?_⟩⟩
      · rw [hfound] at hfailed
        cases hfailed
      · rcases hreports with rfl | ⟨answers, hreports⟩
        · cases hd
        obtain ⟨f, hf, parameter, hmade, rfl⟩ := hreports.exists_finding d hd
        -- a finding was made about the function, so it does not stand in the last column
        have hcorrected : Correctable f := by
          by_contra hover
          rw [finding_overflow hover] at hmade
          cases hmade
        rw [← functions_eq] at hf
        exact ⟨f, hf, suggested f, rfl, rfl, correction_of_correctable hcorrected, rfl⟩

/-- The last column but one is followed by the last one. -/
theorem corrections_of_read_tree_last_but_one :
    let text := (scriptAt 18446744073709551614).toJson.compact
    let engine : Engine := ⟨{}, ⟨[rule .disabled]⟩, []⟩
    ∃ tree f, ScriptBlock.ofText? text = some (some tree) ∧ f ∈ (Node.scriptBlock tree).functions ∧
      f.extent.startColumn = 18446744073709551614 ∧
      (∃ c, correction f = .ok c ∧ c.startColumn = f.extent.startColumn + 1) ∧
      ∃ found, (engine.analyzeTreeText (fun _ => 0) text none).outcome = .ok found ∧
        ∀ d ∈ found, ∃ f ∈ (Node.scriptBlock tree).functions, ∃ c,
          d.extent = f.extent ∧ d.corrections = [c] ∧ correction f = .ok c ∧
            c.startColumn = f.extent.startColumn + 1 := by
  intro text engine
  have hread : ScriptBlock.ofText? text = _ := ofText?_scriptAt (by decide)
  obtain ⟨hcolumns, hanalysis⟩ := corrections_of_read_tree hread
  have hcolumn := (hcolumns _ List.mem_cons_self).2.1.mpr (by decide)
  obtain ⟨hover, hfound⟩ := hanalysis engine .disabled rfl (fun _ => 0) none
  have hfits : ∀ f ∈ functionsIn (scriptAt 18446744073709551614), Correctable f := by
    rw [← functions_eq]
    exact List.forall_mem_singleton.mpr (by decide)
  exact ⟨_, ⟨"f", .function, _, _, _, _⟩, hread, List.mem_cons_self, rfl, hcolumn,
    hfound fun hfailed => not_someOverflows hfits (hover.mp hfailed).2⟩

/-- The function in the last column has no correction, and its analysis breaks off. -/
theorem last_column_breaks_off :
    let text := (scriptAt 18446744073709551615).toJson.compact
    ∃ tree f, ScriptBlock.ofText? text = some (some tree) ∧ f ∈ (Node.scriptBlock tree).functions ∧
      f.extent.startColumn = 18446744073709551615 ∧ correction f = .error .overflow ∧
      ((Engine.mk {} ⟨[rule .disabled]⟩ []).analyzeTreeText (fun _ => 0) text none).outcome =
        .error .overflow := by
  intro text
  have hread : ScriptBlock.ofText? text = _ := ofText?_scriptAt (by decide)
  refine ⟨_, ⟨"f", .function, _, _, _, _⟩, hread, List.mem_cons_self, rfl, by decide, ?_⟩
  rw [Engine.analyzeTreeText, hread]
  decide +kernel

end ParameterDocumentation

end HelpAudit
