import HelpAudit.Tree.Json
import HelpAudit.Proofs.JsonText
import HelpAudit.Proofs.NodeOrder

/-! Trees read back from their JSON. A tree whose numbers have 64 bits is read back as it was
    wherever its nesting has room, and refused elsewhere: `ScriptBlock.readsBack`. A statement is
    stored as a value before its parts are read, which costs nothing, since a value that the writer
    gives can be stored as soon as its nesting has room. -/

namespace HelpAudit

open Json

/-! ### Nesting -/

namespace Json

mutual

/-- The number of arrays and objects that are nested in the value. -/
def nesting : Json → Nat
  | .arr items => itemsNesting items + 1
  | .obj members => membersNesting members + 1
  | .null => 0
  | .bool _ => 0
  | .nat _ => 0
  | .decimal _ => 0
  | .str _ => 0
  | .garbled => 0

def itemsNesting : List Json → Nat
  | [] => 0
  | item :: items => max item.nesting (itemsNesting items)

def membersNesting : List (String × Json) → Nat
  | [] => 0
  | (_, value) :: members => max value.nesting (membersNesting members)

end

@[simp] theorem nesting_str (text : String) : (Json.str text).nesting = 0 := by rw [nesting]

@[simp] theorem nesting_bool (value : Bool) : (Json.bool value).nesting = 0 := by rw [nesting]

@[simp] theorem nesting_nat (n : Nat) : (Json.nat n).nesting = 0 := by rw [nesting]

theorem exceedsDouble_word {n : Nat} (h : n < wordLimit) : exceedsDouble n 0 = false := by
  have hdigits : (Nat.toDigits 10 n).length ≤ 20 :=
    (Nat.length_toDigits_le_iff (by decide) (by decide)).mpr (Nat.lt_trans h (by decide))
  have hsmall : n = 0 ∨ ((Nat.toDigits 10 n).length : Int) + 0 < 300 := .inr (by omega)
  rw [exceedsDouble, if_pos (by simpa using hsmall)]

mutual

/-- A plain value can be stored where its nesting has room. -/
theorem storable_of_isPlain : ∀ (room : Nat) (json : Json), json.IsPlain →
    storable room json = decide (json.nesting ≤ room)
  | _, .null, _ => by simp [storable, nesting]
  | _, .bool _, _ => by simp [storable]
  | _, .str _, _ => by simp [storable]
  | _, .nat n, h => by simp [storable, exceedsDouble_word h]
  | 0, .arr items, _ => by simp [storable, nesting]
  | room + 1, .arr items, h => by simp [storable, nesting, storableItems_of_arePlain room items h]
  | 0, .obj members, _ => by simp [storable, nesting]
  | room + 1, .obj members, h => by
    simp [storable, nesting, storableMembers_of_arePlainMembers room members h]
  | _, .decimal _, h => h.elim
  | _, .garbled, h => h.elim

theorem storableItems_of_arePlain : ∀ (room : Nat) (items : List Json), ArePlain items →
    storableItems room items = decide (itemsNesting items ≤ room)
  | _, [], _ => by simp [storableItems, itemsNesting]
  | room, item :: items, h => by
    simp [storableItems, itemsNesting, storable_of_isPlain room item h.1,
      storableItems_of_arePlain room items h.2]

theorem storableMembers_of_arePlainMembers : ∀ (room : Nat) (members : List (String × Json)),
    ArePlainMembers members →
    storableMembers room members = decide (membersNesting members ≤ room)
  | _, [], _ => by simp [storableMembers, membersNesting]
  | room, (_, value) :: members, h => by
    simp [storableMembers, membersNesting, storable_of_isPlain room value h.1,
      storableMembers_of_arePlainMembers room members h.2]

end

end Json

/-! ### Reading back -/

/-- The value is plain, and the reader takes it exactly where its nesting has room. -/
structure ReadsBack {α : Type} (read : Nat → Json → Option α) (json : Json) (a : α) : Prop where
  plain : json.IsPlain
  read : ∀ room, read room json = if json.nesting ≤ room then some a else none

theorem bind_ite_some {α β : Type} {p : Prop} [Decidable p] (a : α) (f : α → Option β) :
    (if p then some a else none).bind f = if p then f a else none := by
  split <;> rfl

theorem map_ite_some {α β : Type} {p : Prop} [Decidable p] (a : α) (f : α → β) :
    (if p then some a else none).map f = if p then some (f a) else none := by
  split <;> rfl

section

variable {α : Type} {read : Nat → Json → Option α} {a : α}

/-- Only the parts of a record have to be followed: the record itself takes one level of room. -/
theorem readsBack_obj {members : List (String × Json)} (hplain : ArePlainMembers members)
    (hzero : ∀ json, read 0 json = none)
    (h : ∀ room, read (room + 1) (.obj members) =
      if membersNesting members ≤ room then some a else none) :
    ReadsBack read (.obj members) a := by
  refine ⟨hplain, fun room => ?_⟩
  cases room with
  | zero => simp [hzero, nesting]
  | succ room => simp only [h, nesting, Nat.add_le_add_iff_right]

/-- A part that may be missing, read where it is there. -/
theorem ReadsBack.optional {json : Json} (h : ReadsBack read json a) (hnull : json ≠ .null)
    (room : Nat) :
    Json.optional (read room) (some json) = if json.nesting ≤ room then some (some a) else none := by
  rw [Json.optional, h.read, map_ite_some]
  rintro rfl
  exact hnull rfl

variable {jsons : List Json} {items : List α}

theorem arePlain_of_forall₂ (h : List.Forall₂ (ReadsBack read) jsons items) : ArePlain jsons := by
  induction h with
  | nil => trivial
  | cons hitem _ ih => exact ⟨hitem.plain, ih⟩

theorem mapM_readsBack (h : List.Forall₂ (ReadsBack read) jsons items) (room : Nat) :
    jsons.mapM (read room) = if itemsNesting jsons ≤ room then some items else none := by
  induction h with
  | nil => simp [itemsNesting]
  | cons hitem _ ih =>
    simp only [List.mapM_cons, hitem.read, ih, Option.pure_def, Option.bind_eq_bind, bind_ite_some,
      itemsNesting, Nat.max_le, ite_and]

theorem readsBack_arr (h : List.Forall₂ (ReadsBack read) jsons items) :
    ReadsBack (list? read) (.arr jsons) items := by
  refine ⟨arePlain_of_forall₂ h, fun room => ?_⟩
  cases room with
  | zero => simp [list?, nesting]
  | succ room => simp only [list?, mapM_readsBack h, nesting, Nat.add_le_add_iff_right]

theorem readsBack_map {toJson : α → Json} (h : ∀ a ∈ items, ReadsBack read (toJson a) a) :
    ReadsBack (list? read) (.arr (items.map toJson)) items := by
  refine readsBack_arr ?_
  induction items with
  | nil => exact .nil
  | cons a items ih =>
    exact .cons (h a List.mem_cons_self) (ih fun b hb => h b (List.mem_cons_of_mem a hb))

end

theorem readsBack_strings (items : List String) : ReadsBack stringList? (strings items) items := by
  refine readsBack_map fun s _ => ⟨trivial, fun room => ?_⟩
  simp [string?]

/-! ### Records -/

/-- All numbers of the extent have 64 bits. -/
structure Extent.InWords (e : Extent) : Prop where
  startLine : e.startLine < wordLimit
  startColumn : e.startColumn < wordLimit
  endLine : e.endLine < wordLimit
  endColumn : e.endColumn < wordLimit
  startOffset : e.startOffset < wordLimit
  endOffset : e.endOffset < wordLimit

theorem Extent.readsBack {e : Extent} (h : e.InWords) : ReadsBack Extent.ofJson? e.toJson e := by
  obtain ⟨file, startLine, startColumn, endLine, endColumn, startOffset, endOffset, text⟩ := e
  obtain ⟨h1, h2, h3, h4, h5, h6⟩ := h
  refine readsBack_obj ?_ (fun _ => rfl) fun room => ?_
  · cases file <;> simp [memberIfSome, IsPlain, ArePlainMembers, h1, h2, h3, h4, h5, h6]
  · cases file <;> simp [Extent.ofJson?, memberIfSome, fields?, member?, List.filter_cons, required,
      defaulting, Json.optional, word?, string?, membersNesting, h1, h2, h3, h4, h5, h6]

theorem CommentGroup.readsBack {g : CommentGroup} (h : g.extent.InWords) :
    ReadsBack CommentGroup.ofJson? g.toJson g := by
  have hcomments := readsBack_strings g.comments
  have hextent := Extent.readsBack h
  refine readsBack_obj ⟨hcomments.plain, hextent.plain, trivial⟩ (fun _ => rfl) fun room => ?_
  simp [CommentGroup.ofJson?, fields?, member?, List.filter_cons, required, hcomments.read,
    hextent.read, bind_ite_some, membersNesting, ite_and]

theorem Parameter.readsBack {p : Parameter} (h : p.extent.InWords) :
    ReadsBack Parameter.ofJson? p.toJson p := by
  have hextent := Extent.readsBack h
  have hattributes := readsBack_strings p.attributes
  have hcomments := readsBack_strings p.leadingComments
  obtain ⟨name, extent, attributes, defaultValue, leadingComments⟩ := p
  refine readsBack_obj ?_ (fun _ => rfl) fun room => ?_
  · cases defaultValue <;> simp [memberIfSome, IsPlain, ArePlainMembers, hextent.plain,
      hattributes.plain, hcomments.plain]
  · cases defaultValue <;> simp [Parameter.ofJson?, memberIfSome, fields?, member?,
      List.filter_cons, required, defaulting, Json.optional, string?, hextent.read,
      hattributes.read, hcomments.read, bind_ite_some, membersNesting, ite_and]

theorem ParamBlock.readsBack {b : ParamBlock} (h : b.extent.InWords)
    (hparameters : ∀ p ∈ b.parameters, p.extent.InWords) :
    ReadsBack ParamBlock.ofJson? b.toJson b := by
  have hextent := Extent.readsBack h
  have hattributes := readsBack_strings b.attributes
  have hlist : ReadsBack (list? Parameter.ofJson?) (.arr (b.parameters.map Parameter.toJson))
      b.parameters := readsBack_map fun p hp => Parameter.readsBack (hparameters p hp)
  refine readsBack_obj ⟨hextent.plain, hattributes.plain, hlist.plain, trivial⟩ (fun _ => rfl)
    fun room => ?_
  simp [ParamBlock.ofJson?, fields?, member?, List.filter_cons, required, defaulting, hextent.read,
    hattributes.read, hlist.read, bind_ite_some, membersNesting, ite_and]

/-! ### Trees -/

/-- The extents that a node has itself. -/
def Node.ownExtents : Node → List Extent
  | .functionDefinition f => f.extent :: f.helpComments.map (·.extent)
  | node => [node.extent]

/-- All numbers in the node and below it have 64 bits. -/
def Node.InWords (node : Node) : Prop :=
  ∀ n ∈ node.preorder, ∀ e ∈ n.ownExtents, e.InWords

theorem Node.inWords_iff {node : Node} : node.InWords ↔
    (∀ e ∈ node.ownExtents, e.InWords) ∧ ∀ child ∈ node.children, child.InWords :=
  Node.forall_mem_preorder

theorem Node.InWords.extent {node : Node} (h : node.InWords) : node.extent.InWords := by
  refine (Node.inWords_iff.mp h).1 _ ?_
  cases node <;> exact List.mem_cons_self

theorem Node.InWords.child {node : Node} (h : node.InWords) : ∀ child ∈ node.children, child.InWords :=
  (Node.inWords_iff.mp h).2

theorem ParamBlock.readsBack_of_inWords {b : ParamBlock} (h : (Node.paramBlock b).InWords) :
    ReadsBack ParamBlock.ofJson? b.toJson b :=
  ParamBlock.readsBack h.extent fun _ hp => (h.child _ (List.mem_map_of_mem hp)).extent

theorem BlockKind.choice?_keyword (stored : Bool) (room : Nat) (kind : BlockKind) :
    choice? BlockKind.table stored room (.str kind.keyword) = some kind := by
  cases kind <;> rfl

theorem FunctionKind.choice?_keyword (stored : Bool) (room : Nat) (kind : FunctionKind) :
    choice? FunctionKind.table stored room (.str kind.keyword) = some kind := by
  cases kind <;> rfl

theorem ScriptBlock.listOfJson?_eq (stored : Bool) :
    ScriptBlock.listOfJson? stored = list? (ScriptBlock.ofJson? stored) := by
  funext room json
  cases room <;> cases json <;> rfl

theorem NamedBlock.listOfJson?_eq (stored : Bool) :
    NamedBlock.listOfJson? stored = list? (NamedBlock.ofJson? stored) := by
  funext room json
  cases room <;> cases json <;> rfl

theorem Statement.listOfJson?_eq (stored : Bool) :
    Statement.listOfJson? stored = list? (Statement.ofJson? stored) := by
  funext room json
  cases room <;> cases json <;> rfl

/-- What is read back from a stored statement is read back in any case: a plain value can be stored
    where its nesting has room. -/
theorem Statement.readsBack_of_stored {json : Json} {statement : Statement}
    (h : ReadsBack (Statement.ofJson? true) json statement)
    (hsplit : StatementTag.split? false json = StatementTag.split? true json) (stored : Bool) :
    ReadsBack (Statement.ofJson? stored) json statement := by
  cases stored with
  | true => exact h
  | false =>
    refine ⟨h.plain, fun room => ?_⟩
    cases room with
    | zero => exact h.read 0
    | succ room =>
      have hread := h.read (room + 1)
      rw [Statement.ofJson?] at hread ⊢
      rw [storable_of_isPlain _ _ h.plain, hsplit]
      by_cases hroom : json.nesting ≤ room + 1
      · simpa [hroom] using hread
      · simp [hroom]

-- Every case opens one record; the numbers of its parts have 64 bits because those of its children
-- have.
mutual

theorem ScriptBlock.readsBack (stored : Bool) : ∀ block : ScriptBlock,
    (Node.scriptBlock block).InWords → ReadsBack (ScriptBlock.ofJson? stored) block.toJson block
  | ⟨extent, params, blocks⟩, h => by
    have hextent : ReadsBack Extent.ofJson? extent.toJson extent := Extent.readsBack h.extent
    have hblocks := readsBack_arr (namedBlocks_readBack stored blocks
      fun block hb => h.child _ (List.mem_append_right _ (List.mem_map_of_mem hb)))
    cases params with
    | none =>
      refine readsBack_obj ⟨hextent.plain, hblocks.plain, trivial⟩ (fun _ => rfl) fun room => ?_
      simp [ScriptBlock.ofJson?, memberIfSome, fields?, member?, List.filter_cons, required,
        defaulting, Json.optional, NamedBlock.listOfJson?_eq, hextent.read, hblocks.read,
        bind_ite_some, membersNesting, ite_and]
    | some params =>
      have hparams := ParamBlock.readsBack_of_inWords
        (h.child (.paramBlock params) (List.mem_append_left _ List.mem_cons_self))
      have hsome : params.toJson ≠ .null := by simp [ParamBlock.toJson]
      refine readsBack_obj ⟨hextent.plain, hparams.plain, hblocks.plain, trivial⟩ (fun _ => rfl)
        fun room => ?_
      simp [ScriptBlock.ofJson?, memberIfSome, fields?, member?, List.filter_cons, required,
        defaulting, hparams.optional hsome, NamedBlock.listOfJson?_eq, hextent.read, hblocks.read,
        bind_ite_some, membersNesting, ite_and]

theorem NamedBlock.readsBack (stored : Bool) : ∀ block : NamedBlock,
    (Node.namedBlock block).InWords → ReadsBack (NamedBlock.ofJson? stored) block.toJson block
  | ⟨kind, unnamed, extent, statements⟩, h => by
    have hextent : ReadsBack Extent.ofJson? extent.toJson extent := Extent.readsBack h.extent
    have hstatements := readsBack_arr (statements_readBack stored statements
      fun statement hs => h.child _ (List.mem_map_of_mem hs))
    refine readsBack_obj ⟨trivial, trivial, hextent.plain, hstatements.plain, trivial⟩
      (fun _ => rfl) fun room => ?_
    simp [NamedBlock.ofJson?, fields?, member?, List.filter_cons, required, defaulting,
      BlockKind.choice?_keyword, bool?, Statement.listOfJson?_eq, hextent.read, hstatements.read,
      bind_ite_some, membersNesting, ite_and]

theorem Statement.readsBack (stored : Bool) : ∀ statement : Statement, statement.node.InWords →
    ReadsBack (Statement.ofJson? stored) statement.toJson statement
  | .function ⟨name, kind, extent, parameters, body, comments⟩, h => by
    have hextent : ReadsBack Extent.ofJson? extent.toJson extent := Extent.readsBack h.extent
    have hbody := ScriptBlock.readsBack true body
      (h.child _ (List.mem_append_right _ List.mem_cons_self))
    have hcomments : ReadsBack (list? CommentGroup.ofJson?) (.arr (comments.map CommentGroup.toJson))
        comments := readsBack_map fun g hg => CommentGroup.readsBack
      ((Node.inWords_iff.mp h).1 _ (List.mem_cons_of_mem _ (List.mem_map_of_mem hg)))
    -- absent parameters are left out of the object, so the two cases have different members
    cases parameters with
    | none =>
      refine Statement.readsBack_of_stored ?_ rfl stored
      refine readsBack_obj ⟨trivial, trivial, trivial, hextent.plain, hbody.plain, hcomments.plain,
        trivial⟩ (fun _ => rfl) fun room => ?_
      simp [Statement.ofJson?, FunctionDefinition.members, StatementTag.split?,
        StatementTag.ofJson?, memberIfSome, fields?, member?, required, defaulting,
        Json.optional, string?, FunctionKind.choice?_keyword, hextent.read, hbody.read,
        hcomments.read, bind_ite_some, membersNesting, ite_and]
    | some parameters =>
      have hparameters : ReadsBack (list? Parameter.ofJson?)
          (.arr (parameters.map Parameter.toJson)) parameters :=
        readsBack_map fun p hp => Parameter.readsBack
          (h.child (.parameter p) (List.mem_append_left _ (List.mem_map_of_mem hp))).extent
      refine Statement.readsBack_of_stored ?_ rfl stored
      refine readsBack_obj ⟨trivial, trivial, trivial, hextent.plain, hparameters.plain, hbody.plain,
        hcomments.plain, trivial⟩ (fun _ => rfl) fun room => ?_
      simp [Statement.ofJson?, FunctionDefinition.members, StatementTag.split?,
        StatementTag.ofJson?, memberIfSome, fields?, member?, required, defaulting,
        string?, FunctionKind.choice?_keyword, hextent.read, hbody.read,
        hparameters.optional, hcomments.read, bind_ite_some, membersNesting, ite_and]
  | .pipeline ⟨extent, blocks⟩, h => by
    have hextent : ReadsBack Extent.ofJson? extent.toJson extent := Extent.readsBack h.extent
    have hblocks := readsBack_arr (scriptBlocks_readBack true blocks
      fun block hb => h.child _ (List.mem_map_of_mem hb))
    refine Statement.readsBack_of_stored ?_ rfl stored
    refine readsBack_obj ⟨trivial, hextent.plain, hblocks.plain, trivial⟩ (fun _ => rfl)
      fun room => ?_
    simp [Statement.ofJson?, Pipeline.members, StatementTag.split?, StatementTag.ofJson?, fields?,
      member?, required, defaulting, ScriptBlock.listOfJson?_eq, hextent.read,
      hblocks.read, bind_ite_some, membersNesting, ite_and]

theorem scriptBlocks_readBack (stored : Bool) : ∀ blocks : List ScriptBlock,
    (∀ block ∈ blocks, (Node.scriptBlock block).InWords) →
    List.Forall₂ (ReadsBack (ScriptBlock.ofJson? stored)) (scriptBlocksJson blocks) blocks
  | [], _ => .nil
  | block :: blocks, h =>
    .cons (ScriptBlock.readsBack stored block (h block List.mem_cons_self))
      (scriptBlocks_readBack stored blocks fun b hb => h b (List.mem_cons_of_mem block hb))

theorem namedBlocks_readBack (stored : Bool) : ∀ blocks : List NamedBlock,
    (∀ block ∈ blocks, (Node.namedBlock block).InWords) →
    List.Forall₂ (ReadsBack (NamedBlock.ofJson? stored)) (namedBlocksJson blocks) blocks
  | [], _ => .nil
  | block :: blocks, h =>
    .cons (NamedBlock.readsBack stored block (h block List.mem_cons_self))
      (namedBlocks_readBack stored blocks fun b hb => h b (List.mem_cons_of_mem block hb))

theorem statements_readBack (stored : Bool) : ∀ statements : List Statement,
    (∀ statement ∈ statements, statement.node.InWords) →
    List.Forall₂ (ReadsBack (Statement.ofJson? stored)) (statementsJson statements) statements
  | [], _ => .nil
  | statement :: statements, h =>
    .cons (Statement.readsBack stored statement (h statement List.mem_cons_self))
      (statements_readBack stored statements fun s hs => h s (List.mem_cons_of_mem statement hs))

end

/-- A tree's text is read back as the tree, or refused when its nesting is too deep. -/
theorem ScriptBlock.ofText?_written {tree : ScriptBlock} (h : (Node.scriptBlock tree).InWords) :
    ∀ text ∈ [tree.toJson.compact, tree.toJson.pretty], ScriptBlock.ofText? text =
      if tree.toJson.nesting ≤ treeNesting then some (some tree) else none := by
  intro text htext
  have hread := ScriptBlock.readsBack false tree h
  obtain ⟨members, hmembers⟩ : ∃ members, tree.toJson = .obj members := by
    cases tree
    exact ⟨_, rfl⟩
  rw [ScriptBlock.ofText?, Json.ofText?_written hread.plain text htext]
  simp only [Option.bind_eq_bind, Option.bind_some, hmembers]
  rw [← hmembers, hread.read, map_ite_some]

end HelpAudit
