import HelpAudit.Proofs.RestyledRecords

/-! Reading a tree does not depend on how its document presents it. A reader `Keeps` a kind of value when
    what it takes it takes as the same after a change. A record is read from the values of its fields
    alone, so it is kept once the readers of its fields are, down to the texts and numbers. -/

namespace HelpAudit

open Json

/-! ### Readers -/

/-- What the reader takes it takes as the same after a change. -/
def Keeps {α : Type} (role : Role) (room : Nat) (read : Json → Option α) : Prop :=
  ∀ json json', Restyled role room json json' → ∀ a, read json = some a → read json' = some a

section

variable {α : Type} {role : Role} {room : Nat} {read : Json → Option α}

theorem keeps_of_leaf (hobj : ∀ members, read (.obj members) = none)
    (harr : ∀ items, read (.arr items) = none) : Keeps role room read := by
  intro json json' h a ha
  obtain ⟨members, _, rfl, _⟩ | ⟨items, _, rfl, _⟩ := h.shape
  · rw [hobj] at ha
    cases ha
  · rw [harr] at ha
    cases ha

theorem keeps_string : Keeps role room string? := keeps_of_leaf (fun _ => rfl) fun _ => rfl

theorem keeps_word : Keeps role room word? := keeps_of_leaf (fun _ => rfl) fun _ => rfl

theorem keeps_bool : Keeps role room bool? := keeps_of_leaf (fun _ => rfl) fun _ => rfl

theorem keeps_tag (stored : Bool) : Keeps role room (StatementTag.ofJson? stored) :=
  keeps_of_leaf (fun _ => rfl) fun _ => rfl

theorem optional_of_ne_null {json : Json} (h : json ≠ .null) :
    Json.optional read (some json) = (read json).map some := by
  cases json with
  | null => exact absurd rfl h
  | _ => rfl

theorem Keeps.optional (h : Keeps role room read) :
    Keeps role room fun json => Json.optional read (some json) := by
  intro json json' hrestyled a ha
  simp only [optional_of_ne_null hrestyled.ne_null.1, Option.map_eq_some_iff] at ha
  simp only [optional_of_ne_null hrestyled.ne_null.2, Option.map_eq_some_iff]
  obtain ⟨b, hb, rfl⟩ := ha
  exact ⟨b, h _ _ hrestyled _ hb, rfl⟩

/-- Any number of changes. -/
theorem Keeps.trans (h : Keeps role room read) {json json' : Json}
    (hrestyles : Relation.ReflTransGen (Restyled role room) json json') {a : α}
    (ha : read json = some a) : read json' = some a := by
  induction hrestyles with
  | refl => exact ha
  | tail _ hstep ih => exact h _ _ hstep _ ih

theorem Keeps.mapM (h : Keeps role room read) {before after : List Json} {value value' : Json}
    (hvalue : Restyled role room value value') {items : List α}
    (hitems : (before ++ value :: after).mapM read = some items) :
    (before ++ value' :: after).mapM read = some items := by
  simp only [List.mapM_append, List.mapM_cons, Option.bind_eq_bind, Option.bind_eq_some_iff] at hitems ⊢
  obtain ⟨front, hfront, back, ⟨item, hitem, hback⟩, hjoin⟩ := hitems
  exact ⟨front, hfront, back, ⟨item, h _ _ hvalue _ hitem, hback⟩, hjoin⟩

theorem keeps_list {read : Nat → Json → Option α} (h : ∀ k < room, Keeps role k (read k)) :
    Keeps (.list role) room (list? read room) := by
  intro json json' hrestyled items hitems
  cases room with
  | zero => cases hitems
  | succ room =>
    cases hrestyled with
    | permuted => cases hitems
    | inItem hitem => exact (h room (Nat.lt_succ_self room)).mapM hitem hitems

theorem keeps_stringList : Keeps .value room (stringList? room) := by
  intro json json' hrestyled items hitems
  cases room with
  | zero => cases hitems
  | succ room =>
    cases hrestyled with
    | permuted | inValueMember => cases hitems
    | inValueItem hitem => exact keeps_string.mapM hitem hitems

theorem exists_of_choice {table : List (String × α)} {stored : Bool}
    {members : List (String × Json)} {a : α} (h : choice? table stored room (.obj members) = some a) :
    ∃ word value, members = [(word, value)] ∧ (value = .null ∨ value = .obj []) := by
  unfold choice? at h
  split at h
  case h_2 word heq =>
    cases heq
    exact ⟨word, .null, rfl, .inl rfl⟩
  case h_3 word heq =>
    cases heq
    exact ⟨word, .obj [], rfl, .inr rfl⟩
  all_goals contradiction

/-- There is one way to present an empty value. -/
theorem Restyled.eq_of_empty {value value' : Json} (h : Restyled .value room value value')
    (hvalue : value = .null ∨ value = .obj []) : value' = value := by
  obtain ⟨members, members', rfl, rfl⟩ | ⟨items, items', rfl, rfl⟩ := h.shape
  · have hmembers : members = [] := by simpa using hvalue
    cases h with
    | permuted hperm =>
      subst hmembers
      rw [List.nil_perm.mp hperm]
    | inValueMember => simp at hmembers
  · simp at hvalue

/-- A choice is kept: its object form has one member, which cannot change. -/
theorem keeps_choice (table : List (String × α)) (stored : Bool) :
    Keeps .value room (choice? table stored room) := by
  intro json json' hrestyled a ha
  obtain ⟨members, members', rfl, rfl⟩ | ⟨items, items', rfl, rfl⟩ := hrestyled.shape
  · obtain ⟨word, value, hmembers, hvalue⟩ := exists_of_choice ha
    suffices heq : members' = members by rwa [heq]
    cases hrestyled with
    | permuted hperm =>
      rw [hmembers] at hperm ⊢
      exact (List.singleton_perm.mp hperm).symm
    | @inValueMember _ before name single single' after hinside =>
      obtain ⟨rfl, hcons⟩ | ⟨-, hcons⟩ := List.append_eq_singleton_iff.mp hmembers
      · obtain ⟨⟨rfl, rfl⟩, rfl⟩ : (name = word ∧ single = value) ∧ after = [] := by simpa using hcons
        rw [hinside.eq_of_empty hvalue]
      · cases hcons
  · cases ha

end

section

variable {α : Type} {field : Field} {room : Nat} {value value' : Option Json} {read : Json → Option α}

theorem FieldRestyled.required (h : FieldRestyled field room value value')
    (hread : Keeps field.role room read) (hdefault : ∀ json, ¬field.IsDefault json) {a : α}
    (ha : Json.required read value = some a) : Json.required read value' = some a := by
  cases h with
  | same => exact ha
  | dropped hjson => cases hdefault _ hjson
  | inside hinside => exact hread _ _ hinside _ ha

theorem FieldRestyled.defaulting (h : FieldRestyled field room value value')
    (hread : Keeps field.role room read) {default : α}
    (hdefault : ∀ json, field.IsDefault json → ∀ a, read json = some a → a = default) {a : α}
    (ha : Json.defaulting default read value = some a) :
    Json.defaulting default read value' = some a := by
  cases h with
  | same => exact ha
  | dropped hjson =>
    obtain rfl := hdefault _ hjson _ ha
    rfl
  | inside hinside => exact hread _ _ hinside _ ha

theorem FieldRestyled.optional (h : FieldRestyled field room value value')
    (hread : Keeps field.role room read)
    (hdefault : ∀ json, field.IsDefault json → json = .null) {a : Option α}
    (ha : Json.optional read value = some a) : Json.optional read value' = some a := by
  cases h with
  | same => exact ha
  | dropped hjson =>
    obtain rfl := hdefault _ hjson
    exact ha
  | inside hinside => exact hread.optional _ _ hinside _ ha

end

/-! ### Defaults -/

theorem eq_default_of_eq {α : Type} {read : Json → Option α} {value : Json} {default : α}
    (h : read value = some default) (json : Json) (hjson : json = value) (a : α)
    (ha : read json = some a) : a = default := by
  rw [hjson, h] at ha
  exact (Option.some.inj ha).symm

theorem eq_nil_of_eq {α : Type} {read : Nat → Json → Option α} {room : Nat} (json : Json)
    (hjson : json = .arr []) (items : List α) (hitems : list? read room json = some items) :
    items = [] := by
  subst hjson
  cases room with
  | zero => cases hitems
  | succ room => exact (Option.some.inj hitems).symm

theorem FunctionKind.eq_of_isDefault {room : Nat} (json : Json) (h : FunctionKind.IsDefault json)
    (kind : FunctionKind) (hkind : choice? FunctionKind.table true room json = some kind) :
    kind = .function := by
  have hone : choice? FunctionKind.table true 1 json = some kind := by
    unfold choice? at hkind ⊢
    split at hkind <;> simp_all
  exact Option.some.inj (hone.symm.trans h)

/-! ### Records -/

/-- A record is read from the values of its fields. -/
theorem Restyled.bind_fields {α : Type} {kind : RecordKind} {room : Nat} {json json' : Json}
    (h : Restyled (.record kind) (room + 1) json json') {build : List (Option Json) → Option α}
    (hbuild : ∀ values values', FieldsRestyled room kind.fields values values' →
      ∀ a, build values = some a → build values' = some a) {a : α}
    (ha : (Json.fields? kind.names json).bind build = some a) :
    (Json.fields? kind.names json').bind build = some a := by
  obtain ⟨values, hvalues, ha⟩ := Option.bind_eq_some_iff.mp ha
  obtain ⟨values', hvalues', hfields⟩ := h.fields? hvalues
  rw [hvalues']
  exact hbuild values values' hfields a ha

theorem keeps_extent (room : Nat) : Keeps (.record .extent) room (Extent.ofJson? room) := by
  intro json json' h extent hread
  cases room with
  | zero => cases hread
  | succ room =>
    refine h.bind_fields (fun values values' hfields e he => ?_) hread
    obtain _ | ⟨hfile, _ | ⟨hstartLine, _ | ⟨hstartColumn, _ | ⟨hendLine, _ | ⟨hendColumn,
      _ | ⟨hstartOffset, _ | ⟨hendOffset, _ | ⟨htext, ⟨⟩⟩⟩⟩⟩⟩⟩⟩⟩ := hfields
    simp only [Option.bind_eq_bind, Option.bind_eq_some_iff] at he ⊢
    obtain ⟨_, h1, _, h2, _, h3, _, h4, _, h5, _, h6, _, h7, _, h8, he⟩ := he
    exact ⟨_, hfile.optional keeps_string (fun _ => id) h1,
      _, hstartLine.required keeps_word (fun _ => id) h2,
      _, hstartColumn.required keeps_word (fun _ => id) h3,
      _, hendLine.required keeps_word (fun _ => id) h4,
      _, hendColumn.required keeps_word (fun _ => id) h5,
      _, hstartOffset.defaulting keeps_word (eq_default_of_eq rfl) h6,
      _, hendOffset.defaulting keeps_word (eq_default_of_eq rfl) h7,
      _, htext.defaulting keeps_string (eq_default_of_eq rfl) h8, he⟩

theorem keeps_commentGroup (room : Nat) :
    Keeps (.record .commentGroup) room (CommentGroup.ofJson? room) := by
  intro json json' h group hread
  cases room with
  | zero => cases hread
  | succ room =>
    refine h.bind_fields (fun values values' hfields g hg => ?_) hread
    obtain _ | ⟨hcomments, _ | ⟨hextent, ⟨⟩⟩⟩ := hfields
    simp only [Option.bind_eq_bind, Option.bind_eq_some_iff] at hg ⊢
    obtain ⟨_, h1, _, h2, hg⟩ := hg
    exact ⟨_, hcomments.required keeps_stringList (fun _ => id) h1,
      _, hextent.required (keeps_extent room) (fun _ => id) h2, hg⟩

theorem keeps_parameter (room : Nat) : Keeps (.record .parameter) room (Parameter.ofJson? room) := by
  intro json json' h parameter hread
  cases room with
  | zero => cases hread
  | succ room =>
    refine h.bind_fields (fun values values' hfields p hp => ?_) hread
    obtain _ | ⟨hname, _ | ⟨hextent, _ | ⟨hattributes, _ | ⟨hdefaultValue, _ | ⟨hcomments,
      ⟨⟩⟩⟩⟩⟩⟩ := hfields
    simp only [Option.bind_eq_bind, Option.bind_eq_some_iff] at hp ⊢
    obtain ⟨_, h1, _, h2, _, h3, _, h4, _, h5, hp⟩ := hp
    exact ⟨_, hname.required keeps_string (fun _ => id) h1,
      _, hextent.required (keeps_extent room) (fun _ => id) h2,
      _, hattributes.defaulting keeps_stringList eq_nil_of_eq h3,
      _, hdefaultValue.optional keeps_string (fun _ => id) h4,
      _, hcomments.defaulting keeps_stringList eq_nil_of_eq h5, hp⟩

theorem keeps_paramBlock (room : Nat) : Keeps (.record .paramBlock) room (ParamBlock.ofJson? room) := by
  intro json json' h block hread
  cases room with
  | zero => cases hread
  | succ room =>
    refine h.bind_fields (fun values values' hfields b hb => ?_) hread
    obtain _ | ⟨hextent, _ | ⟨hattributes, _ | ⟨hparameters, ⟨⟩⟩⟩⟩ := hfields
    simp only [Option.bind_eq_bind, Option.bind_eq_some_iff] at hb ⊢
    obtain ⟨_, h1, _, h2, _, h3, hb⟩ := hb
    exact ⟨_, hextent.required (keeps_extent room) (fun _ => id) h1,
      _, hattributes.defaulting keeps_stringList eq_nil_of_eq h2,
      _, hparameters.defaulting (keeps_list fun k _ => keeps_parameter k) eq_nil_of_eq h3, hb⟩

/-! ### Statements -/

/-- A statement, read from the values of its fields behind its tag. -/
def Statement.ofFields? (room : Nat) : StatementTag → List (Option Json) → Option Statement
  | .function, [name, kind, extent, parameters, body, comments] => do
    let name ← required string? name
    let kind ← defaulting .function (choice? FunctionKind.table true room) kind
    let extent ← required (Extent.ofJson? room) extent
    let parameters ← optional (list? Parameter.ofJson? room) parameters
    let body ← required (ScriptBlock.ofJson? true room) body
    let comments ← defaulting [] (list? CommentGroup.ofJson? room) comments
    return .function ⟨name, kind, extent, parameters, body, comments⟩
  | .pipeline, [extent, blocks] => do
    let extent ← required (Extent.ofJson? room) extent
    let blocks ← defaulting [] (list? (ScriptBlock.ofJson? true) room) blocks
    return .pipeline ⟨extent, blocks⟩
  | _, _ => none

/-- A statement is stored first, unless it has been, then split from its tag and read from its fields. -/
theorem Statement.ofJson?_succ (stored : Bool) (room : Nat) (json : Json) :
    Statement.ofJson? stored (room + 1) json =
      if stored = true ∨ json.storable (room + 1) = true then
        (StatementTag.split? stored json).bind fun split =>
          (Json.fields? split.1.record.names.tail split.2).bind (Statement.ofFields? room split.1)
      else none := by
  rw [Statement.ofJson?]
  simp only [ScriptBlock.listOfJson?_eq]
  by_cases hstored : stored = true ∨ json.storable (room + 1) = true
  · have hcheck : ¬(!stored && !json.storable (room + 1)) = true := by
      rcases hstored with h | h <;> simp [h]
    rw [if_pos hstored, if_neg hcheck]
    refine congrArg (Option.bind _) (funext fun split => ?_)
    obtain ⟨tag, inner⟩ := split
    cases tag with
    | function =>
      refine congrArg (Option.bind _) (funext fun values => ?_)
      rcases values with _ | ⟨_, _ | ⟨_, _ | ⟨_, _ | ⟨_, _ | ⟨_, _ | ⟨_, _ | _⟩⟩⟩⟩⟩⟩ <;> rfl
    | pipeline =>
      refine congrArg (Option.bind _) (funext fun values => ?_)
      rcases values with _ | ⟨_, _ | ⟨_, _ | _⟩⟩ <;> rfl
  · rw [if_neg hstored, if_pos (by simpa using hstored)]
    rfl

namespace Json

theorem member?_filter {key name : String} (h : name ≠ key) (members : List (String × Json)) :
    member? name (members.filter (·.1 ≠ key)) = member? name members := by
  have hfilter : (members.filter (·.1 ≠ key)).filter (·.1 = name) = members.filter (·.1 = name) := by
    rw [List.filter_filter]
    refine List.filter_congr fun member _ => ?_
    simp only [decide_eq_true_eq, Bool.and_eq_left_iff_imp, decide_not]
    rintro rfl
    simpa using h
  rw [member?, member?, hfilter]

theorem fields?_filter {key : String} {names : List String} (h : key ∉ names)
    (members : List (String × Json)) :
    fields? names (.obj (members.filter (·.1 ≠ key))) = fields? names (.obj members) := by
  simp only [fields?]
  induction names with
  | nil => rfl
  | cons name names ih =>
    rw [List.mem_cons, not_or] at h
    rw [List.mapM_cons, List.mapM_cons, member?_filter (Ne.symm h.1), ih h.2]

end Json

theorem StatementTag.split?_obj_iff {stored : Bool} {members : List (String × Json)}
    {tag : StatementTag} {inner : Json} :
    StatementTag.split? stored (.obj members) = some (tag, inner) ↔
      ∃ word, Json.member? "type" members = some (some word) ∧
        StatementTag.ofJson? stored word = some tag ∧
        inner = .obj (members.filter (·.1 ≠ "type")) := by
  simp only [StatementTag.split?, Option.bind_eq_bind, Option.bind_eq_some_iff, Option.pure_def,
    Option.some.injEq, Prod.mk.injEq]
  constructor
  · rintro ⟨word, hword, tag, htag, rfl, rfl⟩
    cases word with
    | none => cases htag
    | some word => exact ⟨word, hword, htag, rfl⟩
  · rintro ⟨word, hword, htag, rfl⟩
    exact ⟨some word, hword, tag, htag, rfl, rfl⟩

theorem StatementTag.split?_arr_iff {stored : Bool} {items : List Json} {tag : StatementTag}
    {inner : Json} : StatementTag.split? stored (.arr items) = some (tag, inner) ↔
      ∃ word rest, items = word :: rest ∧ StatementTag.ofJson? stored word = some tag ∧
        inner = .arr rest := by
  cases items with
  | nil => simp [StatementTag.split?]
  | cons word rest =>
    simp only [StatementTag.split?, Option.bind_eq_bind, Option.bind_eq_some_iff, Option.pure_def,
      Option.some.injEq, Prod.mk.injEq, List.cons.injEq]
    constructor
    · rintro ⟨tag, htag, rfl, rfl⟩
      exact ⟨word, rest, ⟨rfl, rfl⟩, htag, rfl⟩
    · rintro ⟨_, _, ⟨rfl, rfl⟩, htag, rfl⟩
      exact ⟨tag, htag, rfl, rfl⟩

/-- To take off the tag and then to ask for the fields is to ask for the fields with the tag in front. -/
theorem StatementTag.exists_split?_iff {stored : Bool} {names : List String} (hnames : "type" ∉ names)
    {json : Json} {tag : StatementTag} {values : List (Option Json)} :
    (∃ inner, StatementTag.split? stored json = some (tag, inner) ∧
        Json.fields? names inner = some values) ↔
      ∃ word, StatementTag.ofJson? stored word = some tag ∧
        Json.fields? ("type" :: names) json = some (some word :: values) := by
  cases json with
  | obj members =>
    -- the tag is asked for by its name, and taking it off changes no other field
    have hcons : ∀ word, Json.fields? ("type" :: names) (.obj members) = some (some word :: values) ↔
        Json.member? "type" members = some (some word) ∧
          Json.fields? names (.obj members) = some values := by
      intro word
      simp only [Json.fields?, List.mapM_cons, Option.bind_eq_bind, Option.bind_eq_some_iff,
        Option.pure_def, Option.some.injEq, List.cons.injEq]
      constructor
      · rintro ⟨_, hword, _, hfields, rfl, rfl⟩
        exact ⟨hword, hfields⟩
      · rintro ⟨hword, hfields⟩
        exact ⟨_, hword, _, hfields, rfl, rfl⟩
    simp only [hcons, StatementTag.split?_obj_iff]
    constructor
    · rintro ⟨_, ⟨word, hword, htag, rfl⟩, hfields⟩
      exact ⟨word, htag, hword, (fields?_filter hnames members).symm.trans hfields⟩
    · rintro ⟨word, htag, hword, hfields⟩
      exact ⟨_, ⟨word, hword, htag, rfl⟩, (fields?_filter hnames members).trans hfields⟩
  | arr items =>
    simp only [StatementTag.split?_arr_iff]
    cases items with
    | nil => simp [Json.fields?, List.replicate_succ]
    | cons first rest => simp [Json.fields?]
  | _ => simp [StatementTag.split?, Json.fields?]

theorem StatementTag.names_eq (tag : StatementTag) : "type" ∉ tag.record.names.tail ∧
    tag.record.names = "type" :: tag.record.names.tail := by
  cases tag <;> exact ⟨by decide, rfl⟩

/-- A statement is read from the fields of the record that its tag names. -/
theorem Statement.ofJson?_succ_eq_some_iff {stored : Bool} {room : Nat} {json : Json}
    {statement : Statement} : Statement.ofJson? stored (room + 1) json = some statement ↔
      (stored = true ∨ json.storable (room + 1) = true) ∧
        ∃ tag word values, StatementTag.ofJson? stored word = some tag ∧
          Json.fields? tag.record.names json = some (some word :: values) ∧
          Statement.ofFields? room tag values = some statement := by
  rw [Statement.ofJson?_succ, Option.ite_none_right_eq_some]
  refine and_congr_right fun _ => ?_
  constructor
  · intro h
    obtain ⟨⟨tag, inner⟩, hsplit, h⟩ := Option.bind_eq_some_iff.mp h
    obtain ⟨values, hvalues, hread⟩ := Option.bind_eq_some_iff.mp h
    obtain ⟨word, hword, hfields⟩ :=
      (StatementTag.exists_split?_iff tag.names_eq.1).mp ⟨inner, hsplit, hvalues⟩
    exact ⟨tag, word, values, hword, tag.names_eq.2 ▸ hfields, hread⟩
  · rintro ⟨tag, word, values, hword, hfields, hread⟩
    rw [tag.names_eq.2] at hfields
    obtain ⟨inner, hsplit, hvalues⟩ :=
      (StatementTag.exists_split?_iff tag.names_eq.1).mpr ⟨word, hword, hfields⟩
    rw [hsplit, Option.bind_some, hvalues]
    exact hread

theorem StatementTag.ofJson?_of_stored {stored : Bool} {json : Json} {tag : StatementTag}
    (h : StatementTag.ofJson? stored json = some tag) : StatementTag.ofJson? true json = some tag := by
  cases stored with
  | true => exact h
  | false =>
    unfold StatementTag.ofJson? at h ⊢
    split at h <;> simp_all

/-- What a statement says it is decides which record it is. -/
theorem Restyled.record {stored : Bool} {room : Nat} {json json' word : Json} {tag : StatementTag}
    {values : List (Option Json)} (h : Restyled .statement room json json')
    (hword : StatementTag.ofJson? stored word = some tag)
    (hfields : Json.fields? tag.record.names json = some (some word :: values)) :
    Restyled (.record tag.record) room json json' := by
  cases h with
  | permuted hperm => exact .permuted hperm
  | @inStatement _ _ _ tag' inner' hsplit h =>
    rw [tag.names_eq.2] at hfields
    obtain ⟨inner, hinner, -⟩ := (StatementTag.exists_split?_iff tag.names_eq.1).mpr
      ⟨word, StatementTag.ofJson?_of_stored hword, hfields⟩
    obtain ⟨rfl, -⟩ := Prod.mk.inj (Option.some.inj (hinner.symm.trans hsplit))
    exact h

/-- A statement goes on saying what it is. -/
theorem StatementTag.exists_word {stored : Bool} {room : Nat} {tag : StatementTag} {word : Json}
    {values values' : List (Option Json)}
    (h : FieldsRestyled room tag.record.fields (some word :: values) values')
    (hword : StatementTag.ofJson? stored word = some tag) :
    ∃ word' rest, values' = some word' :: rest ∧ StatementTag.ofJson? stored word' = some tag := by
  have hfields : tag.record.fields = { name := "type" } :: tag.record.fields.tail := by
    cases tag <;> rfl
  rw [hfields] at h
  cases h with
  | @cons _ _ _ value' _ rest hfield _ =>
    have hword' : required (StatementTag.ofJson? stored) value' = some tag :=
      hfield.required (keeps_tag stored) (fun _ => id) hword
    cases value' with
    | none => cases hword'
    | some word' => exact ⟨word', rest, rfl, hword'⟩

section

variable {room : Nat}
  (hblock : ∀ k < room, Keeps (.record .scriptBlock) k (ScriptBlock.ofJson? true k))

include hblock

theorem Statement.ofFields?_restyled {k : Nat} (hk : k < room) {tag : StatementTag}
    {word word' : Option Json} {values values' : List (Option Json)}
    (h : FieldsRestyled k tag.record.fields (word :: values) (word' :: values'))
    {statement : Statement} (hread : Statement.ofFields? k tag values = some statement) :
    Statement.ofFields? k tag values' = some statement := by
  cases tag with
  | function =>
    obtain _ | ⟨_, _ | ⟨hname, _ | ⟨hkind, _ | ⟨hextent, _ | ⟨hparameters, _ | ⟨hbody, _ | ⟨hcomments,
      ⟨⟩⟩⟩⟩⟩⟩⟩⟩ := h
    simp only [Statement.ofFields?, Option.bind_eq_bind, Option.bind_eq_some_iff] at hread ⊢
    obtain ⟨_, h1, _, h2, _, h3, _, h4, _, h5, _, h6, hread⟩ := hread
    exact ⟨_, hname.required keeps_string (fun _ => id) h1,
      _, hkind.defaulting (keeps_choice _ true) FunctionKind.eq_of_isDefault h2,
      _, hextent.required (keeps_extent k) (fun _ => id) h3,
      _, hparameters.optional (keeps_list fun k _ => keeps_parameter k) (fun _ => id) h4,
      _, hbody.required (hblock k hk) (fun _ => id) h5,
      _, hcomments.defaulting (keeps_list fun k _ => keeps_commentGroup k) eq_nil_of_eq h6, hread⟩
  | pipeline =>
    obtain _ | ⟨_, _ | ⟨hextent, _ | ⟨hblocks, ⟨⟩⟩⟩⟩ := h
    simp only [Statement.ofFields?, Option.bind_eq_bind, Option.bind_eq_some_iff] at hread ⊢
    obtain ⟨_, h1, _, h2, hread⟩ := hread
    exact ⟨_, hextent.required (keeps_extent k) (fun _ => id) h1,
      _, hblocks.defaulting (keeps_list fun j hj => hblock j (Nat.lt_trans hj hk)) eq_nil_of_eq h2, hread⟩

theorem keeps_statement (stored : Bool) : Keeps .statement room (Statement.ofJson? stored room) := by
  intro json json' h statement hread
  cases room with
  | zero => cases hread
  | succ room =>
    rw [Statement.ofJson?_succ_eq_some_iff] at hread ⊢
    obtain ⟨hstored, tag, word, values, hword, hfields, hread⟩ := hread
    obtain ⟨_, hfields', hrestyled⟩ := (h.record hword hfields).fields? hfields
    obtain ⟨word', values', rfl, hword'⟩ := StatementTag.exists_word hrestyled hword
    exact ⟨hstored.imp_right h.storable, tag, word', values', hword', hfields',
      Statement.ofFields?_restyled hblock (Nat.lt_succ_self room) hrestyled hread⟩

theorem keeps_namedBlock (stored : Bool) :
    Keeps (.record .namedBlock) room (NamedBlock.ofJson? stored room) := by
  intro json json' h block hread
  cases room with
  | zero => cases hread
  | succ room =>
    rw [NamedBlock.ofJson?, Statement.listOfJson?_eq] at hread ⊢
    refine h.bind_fields (fun values values' hfields b hb => ?_) hread
    obtain _ | ⟨hkind, _ | ⟨hunnamed, _ | ⟨hextent, _ | ⟨hstatements, ⟨⟩⟩⟩⟩⟩ := hfields
    have hstatement : ∀ k < room, Keeps .statement k (Statement.ofJson? stored k) := fun k hk =>
      keeps_statement (fun j hj => hblock j (by omega)) stored
    simp only [Option.bind_eq_bind, Option.bind_eq_some_iff] at hb ⊢
    obtain ⟨_, h1, _, h2, _, h3, _, h4, hb⟩ := hb
    exact ⟨_, hkind.required (keeps_choice _ stored) (fun _ => id) h1,
      _, hunnamed.defaulting keeps_bool (eq_default_of_eq rfl) h2,
      _, hextent.required (keeps_extent room) (fun _ => id) h3,
      _, hstatements.defaulting (keeps_list hstatement) eq_nil_of_eq h4, hb⟩

end

/-- A script block is read from its parts, which have less room. -/
theorem keeps_scriptBlock (stored : Bool) (room : Nat) :
    Keeps (.record .scriptBlock) room (ScriptBlock.ofJson? stored room) := by
  induction room using Nat.strong_induction_on generalizing stored with
  | _ room ih =>
    intro json json' h block hread
    cases room with
    | zero => cases hread
    | succ room =>
      rw [ScriptBlock.ofJson?, NamedBlock.listOfJson?_eq] at hread ⊢
      refine h.bind_fields (fun values values' hfields b hb => ?_) hread
      obtain _ | ⟨hextent, _ | ⟨hparams, _ | ⟨hblocks, ⟨⟩⟩⟩⟩ := hfields
      have hnamed : ∀ k < room, Keeps (.record .namedBlock) k (NamedBlock.ofJson? stored k) := fun k hk =>
        keeps_namedBlock (fun j hj => ih j (by omega) true) stored
      simp only [Option.bind_eq_bind, Option.bind_eq_some_iff] at hb ⊢
      obtain ⟨_, h1, _, h2, _, h3, hb⟩ := hb
      exact ⟨_, hextent.required (keeps_extent room) (fun _ => id) h1,
        _, hparams.optional (keeps_paramBlock room) (fun _ => id) h2,
        _, hblocks.defaulting (keeps_list hnamed) eq_nil_of_eq h3, hb⟩

/-! ### Texts -/

theorem ScriptBlock.ofText?_eq {text : String} {json : Json} (h : Json.ofText? text = some json) :
    ScriptBlock.ofText? text = Json.optional (ScriptBlock.ofJson? false treeNesting) (some json) := by
  rw [ScriptBlock.ofText?, h]
  cases json <;> rfl

/-- A document that is accepted is accepted as the same tree after any number of changes in the order of
    its members, in the defaults that it states and in the unknown members of its records. -/
theorem ScriptBlock.ofText?_of_restyles {text text' : String} {json json' : Json}
    (htext : Json.ofText? text = some json) (htext' : Json.ofText? text' = some json')
    (h : Restyles json json') {tree : Option ScriptBlock} (htree : ScriptBlock.ofText? text = some tree) :
    ScriptBlock.ofText? text' = some tree := by
  rw [ScriptBlock.ofText?_eq htext] at htree
  rw [ScriptBlock.ofText?_eq htext']
  exact (keeps_scriptBlock false treeNesting).optional.trans h htree

/-- The extent of a line, as an array. -/
def lineExtent : Json := .arr [.null, .nat 1, .nat 1, .nat 1, .nat 9]

/-- A document of one line with one statement. -/
def documentOf (statement : Json) : Json :=
  .obj [("extent", lineExtent), ("named_blocks", .arr [.obj
    [("kind", .str "end"), ("extent", lineExtent), ("statements", .arr [statement])]])]

theorem documentOf_written {statement : Json} (h : statement.IsPlain) :
    Json.ofText? (documentOf statement).compact = some (documentOf statement) := by
  have hplain : (documentOf statement).IsPlain := by
    simp [documentOf, lineExtent, IsPlain, ArePlain, ArePlainMembers, wordLimit, h]
  exact Json.ofText?_written hplain _ List.mem_cons_self

theorem documentOf_restyled (tag : StatementTag) {statement statement' inner : Json}
    (htag : StatementTag.split? true statement = some (tag, inner))
    (h : Restyled (.record tag.record) 123 statement statement') :
    Restyled (.record .scriptBlock) treeNesting (documentOf statement) (documentOf statement') :=
  @Restyled.inMember .scriptBlock treeNesting [_] "named_blocks" _ _ [] <|
    @Restyled.inItem (.record .namedBlock) 126 [] _ _ [] <|
    @Restyled.inMember .namedBlock 125 [_, _] "statements" _ _ [] <|
    @Restyled.inItem .statement 124 [] _ _ [] (.inStatement htag h)

/-- A statement with its members in another order, a default left out and a note added. -/
theorem ScriptBlock.ofText?_of_restyles_statement :
    ∃ tree : ScriptBlock,
      ScriptBlock.ofText? (documentOf (.obj [("type", .str "pipeline"), ("extent", lineExtent),
        ("script_blocks", .arr [])])).compact = some (some tree) ∧
      ScriptBlock.ofText? (documentOf (.obj [("extent", lineExtent), ("note", .obj [("by", .null)]),
        ("type", .str "pipeline")])).compact = some (some tree) := by
  have hfirst : Json.ofText? (documentOf (.obj [("type", .str "pipeline"), ("extent", lineExtent),
      ("script_blocks", .arr [])])).compact = _ :=
    documentOf_written (by simp [lineExtent, IsPlain, ArePlain, ArePlainMembers, wordLimit])
  have hlast : Json.ofText? (documentOf (.obj [("extent", lineExtent), ("note", .obj [("by", .null)]),
      ("type", .str "pipeline")])).compact = _ :=
    documentOf_written (by simp [lineExtent, IsPlain, ArePlain, ArePlainMembers, wordLimit])
  have htree : ScriptBlock.ofText? _ = some (some ⟨⟨none, 1, 1, 1, 9, 0, 0, ""⟩, none,
      [⟨.endBlock, false, ⟨none, 1, 1, 1, 9, 0, 0, ""⟩,
        [.pipeline ⟨⟨none, 1, 1, 1, 9, 0, 0, ""⟩, []⟩]⟩]⟩) := ScriptBlock.ofText?_eq hfirst
  -- the default is left out, a note is added, and the tag moves to the end
  have hdropped := documentOf_restyled .pipeline rfl (@Restyled.dropped .pipeline _
    [("type", .str "pipeline"), ("extent", lineExtent)] "script_blocks" (.arr []) [] ⟨_, rfl, rfl⟩)
  have hadded := documentOf_restyled .pipeline rfl (@Restyled.added .pipeline _
    [("type", .str "pipeline"), ("extent", lineExtent)] "note" (.obj [("by", .null)]) [] (by decide)
    (.obj (by simp [Built.null])))
  have hpermuted := documentOf_restyled .pipeline rfl (.permuted (@List.perm_append_comm _
    [("type", .str "pipeline")] [("extent", lineExtent), ("note", .obj [("by", .null)])]))
  exact ⟨_, htree, ScriptBlock.ofText?_of_restyles hfirst hlast
    (.head hdropped (.head hadded (.single hpermuted))) htree⟩

end HelpAudit
