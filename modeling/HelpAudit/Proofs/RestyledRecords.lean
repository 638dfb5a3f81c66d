import Mathlib.Logic.Relation
import HelpAudit.Proofs.TreeJson

/-! Documents that present the same tree. The members of an object may stand in any order, a member that
    states a default may be left out, and a record may have further members that no field asks for. Such
    changes, `Restyled`, keep a value that can be stored one, and they act on the fields of a record one
    by one: a field keeps its value, loses it where it is the default, or has it changed inside. -/

namespace HelpAudit

open Json

/-! ### What a document is made of -/

/-- The records of a tree. -/
inductive RecordKind where
  | extent
  | commentGroup
  | parameter
  | paramBlock
  | scriptBlock
  | namedBlock
  | function
  | pipeline

/-- What a value of a document stands for. -/
inductive Role where
  /-- A text, a number, a word or a list of texts, or anything that is passed over. -/
  | value
  | record (kind : RecordKind)
  /-- A function or a pipeline, as its tag says. -/
  | statement
  | list (item : Role)

/-- A field of a record: its name, what its value stands for, and which values state its default. -/
structure Field where
  name : String
  role : Role := .value
  IsDefault : Json → Prop := fun _ => False

/-- Whether the value names the kind that a function has by default. -/
def FunctionKind.IsDefault (json : Json) : Prop := choice? table true 1 json = some .function

/-- The fields of a record in the order in which an array gives them. -/
def RecordKind.fields : RecordKind → List Field
  | .extent =>
    [{ name := "file", IsDefault := (· = .null) }, { name := "start_line" }, { name := "start_column" },
      { name := "end_line" }, { name := "end_column" }, { name := "start_offset", IsDefault := (· = .nat 0) },
      { name := "end_offset", IsDefault := (· = .nat 0) }, { name := "text", IsDefault := (· = .str "") }]
  | .commentGroup => [{ name := "comments" }, { name := "extent", role := .record .extent }]
  | .parameter =>
    [{ name := "name" }, { name := "extent", role := .record .extent },
      { name := "attributes", IsDefault := (· = .arr []) },
      { name := "default_value", IsDefault := (· = .null) },
      { name := "leading_comments", IsDefault := (· = .arr []) }]
  | .paramBlock =>
    [{ name := "extent", role := .record .extent }, { name := "attributes", IsDefault := (· = .arr []) },
      { name := "parameters", role := .list (.record .parameter), IsDefault := (· = .arr []) }]
  | .scriptBlock =>
    [{ name := "extent", role := .record .extent },
      { name := "param_block", role := .record .paramBlock, IsDefault := (· = .null) },
      { name := "named_blocks", role := .list (.record .namedBlock), IsDefault := (· = .arr []) }]
  | .namedBlock =>
    [{ name := "kind" }, { name := "unnamed", IsDefault := (· = .bool false) },
      { name := "extent", role := .record .extent },
      { name := "statements", role := .list .statement, IsDefault := (· = .arr []) }]
  | .function =>
    [{ name := "type" }, { name := "name" }, { name := "kind", IsDefault := FunctionKind.IsDefault },
      { name := "extent", role := .record .extent },
      { name := "parameters", role := .list (.record .parameter), IsDefault := (· = .null) },
      { name := "body", role := .record .scriptBlock },
      { name := "help_comments", role := .list (.record .commentGroup), IsDefault := (· = .arr []) }]
  | .pipeline =>
    [{ name := "type" }, { name := "extent", role := .record .extent },
      { name := "script_blocks", role := .list (.record .scriptBlock), IsDefault := (· = .arr []) }]

/-- The record that a tag announces. -/
def StatementTag.record : StatementTag → RecordKind
  | .function => .function
  | .pipeline => .pipeline

namespace RecordKind

/-- The names of the fields. -/
def names (kind : RecordKind) : List String := kind.fields.map (·.name)

/-- The field with a name. -/
def field? (kind : RecordKind) (name : String) : Option Field := kind.fields.find? (·.name = name)

/-- What the value of a member stands for; members that no field asks for are passed over. -/
def roleOf (kind : RecordKind) (name : String) : Role :=
  ((kind.field? name).map (·.role)).getD .value

/-- What an item stands for in a record that is given as an array. -/
def roleAt (kind : RecordKind) (place : Nat) : Role :=
  ((kind.fields[place]?).map (·.role)).getD .value

/-- A member states the default of its field. -/
def StatesDefault (kind : RecordKind) (name : String) (value : Json) : Prop :=
  ∃ field, kind.field? name = some field ∧ field.IsDefault value

theorem field?_of_mem {kind : RecordKind} {field : Field} (h : field ∈ kind.fields) :
    kind.field? field.name = some field := by
  cases kind <;> simp only [fields, List.mem_cons, List.not_mem_nil, or_false] at h <;>
    rcases h with rfl | rfl | rfl | rfl | rfl | rfl | rfl | rfl <;> rfl

theorem roleOf_of_mem {kind : RecordKind} {field : Field} (h : field ∈ kind.fields) :
    kind.roleOf field.name = field.role := by
  rw [roleOf, field?_of_mem h]
  rfl

theorem StatesDefault.of_mem {kind : RecordKind} {field : Field} {value : Json}
    (h : kind.StatesDefault field.name value) (hfield : field ∈ kind.fields) : field.IsDefault value := by
  obtain ⟨_, hname, hdefault⟩ := h
  obtain rfl := Option.some.inj ((field?_of_mem hfield).symm.trans hname)
  exact hdefault

end RecordKind

/-- Values built from `null`, truth values, texts, 64-bit integers, arrays and objects, with at most
    `room` arrays and objects nested in them. -/
inductive Built : (room : Nat) → Json → Prop where
  | null {room} : Built room .null
  | bool {room} (value : Bool) : Built room (.bool value)
  | str {room} (text : String) : Built room (.str text)
  | nat {room n} : n < wordLimit → Built room (.nat n)
  | negative {room n} : n ≤ 0x8000000000000000 → Built room (.decimal ⟨true, n, 0⟩)
  | arr {room items} : (∀ item ∈ items, Built room item) → Built (room + 1) (.arr items)
  | obj {room members} : (∀ member ∈ members, Built room member.2) → Built (room + 1) (.obj members)

/-! ### Changes of presentation -/

/-- One change in how a value presents what it stands for, at its top or somewhere inside. The number is
    that of arrays and objects for which there is room at this place. -/
inductive Restyled : Role → (room : Nat) → Json → Json → Prop where
  /-- The members of an object stand in another order. -/
  | permuted {role room members members'} : members.Perm members' →
    Restyled role room (.obj members) (.obj members')
  /-- A member that states a default is left out. -/
  | dropped {kind room before name value after} : kind.StatesDefault name value →
    Restyled (.record kind) room (.obj (before ++ (name, value) :: after)) (.obj (before ++ after))
  /-- A member that no field asks for is added. -/
  | added {kind room before name value after} : name ∉ kind.names → Built (room - 1) value →
    Restyled (.record kind) room (.obj (before ++ after)) (.obj (before ++ (name, value) :: after))
  /-- The value of a member is changed. -/
  | inMember {kind room before name value value' after} :
    Restyled (kind.roleOf name) (room - 1) value value' →
    Restyled (.record kind) room (.obj (before ++ (name, value) :: after))
      (.obj (before ++ (name, value') :: after))
  /-- The value of a field is changed in a record that is given as an array. -/
  | inField {kind room before value value' after} :
    Restyled (kind.roleAt before.length) (room - 1) value value' →
    Restyled (.record kind) room (.arr (before ++ value :: after)) (.arr (before ++ value' :: after))
  /-- An item of a list is changed. -/
  | inItem {role room before value value' after} : Restyled role (room - 1) value value' →
    Restyled (.list role) room (.arr (before ++ value :: after)) (.arr (before ++ value' :: after))
  /-- A statement is changed as the record that it is. -/
  | inStatement {room json json' tag inner} : StatementTag.split? true json = some (tag, inner) →
    Restyled (.record tag.record) room json json' → Restyled .statement room json json'
  /-- A change inside a value that is no record. -/
  | inValueMember {room before name value value' after} : Restyled .value (room - 1) value value' →
    Restyled .value room (.obj (before ++ (name, value) :: after))
      (.obj (before ++ (name, value') :: after))
  | inValueItem {room before value value' after} : Restyled .value (room - 1) value value' →
    Restyled .value room (.arr (before ++ value :: after)) (.arr (before ++ value' :: after))

/-- Any number of changes to a document. -/
def Restyles : Json → Json → Prop :=
  Relation.ReflTransGen (Restyled (.record .scriptBlock) treeNesting)

/-! ### Values that can be stored -/

namespace Json

theorem storableItems_eq_all (room : Nat) : ∀ items : List Json,
    storableItems room items = items.all (storable room)
  | [] => rfl
  | item :: items => by rw [storableItems, storableItems_eq_all room items, List.all_cons]

theorem storableMembers_eq_all (room : Nat) : ∀ members : List (String × Json),
    storableMembers room members = members.all fun member => storable room member.2
  | [] => rfl
  | (_, value) :: members => by
    rw [storableMembers, storableMembers_eq_all room members, List.all_cons]

theorem storable_arr_iff {room : Nat} {items : List Json} : storable room (.arr items) = true ↔
    0 < room ∧ ∀ item ∈ items, storable (room - 1) item = true := by
  cases room with
  | zero => simp [storable]
  | succ room => simp [storable, storableItems_eq_all]

theorem storable_obj_iff {room : Nat} {members : List (String × Json)} :
    storable room (.obj members) = true ↔
      0 < room ∧ ∀ member ∈ members, storable (room - 1) member.2 = true := by
  cases room with
  | zero => simp [storable]
  | succ room => simp [storable, storableMembers_eq_all]

theorem storable_arr_middle {room : Nat} {before after : List Json} {value : Json} :
    storable room (.arr (before ++ value :: after)) = true ↔
      storable (room - 1) value = true ∧ storable room (.arr (before ++ after)) = true := by
  simp only [storable_arr_iff, List.mem_append, List.mem_cons, or_imp, forall_and, forall_eq]
  tauto

theorem storable_obj_middle {room : Nat} {before after : List (String × Json)} {name : String}
    {value : Json} : storable room (.obj (before ++ (name, value) :: after)) = true ↔
      storable (room - 1) value = true ∧ storable room (.obj (before ++ after)) = true := by
  simp only [storable_obj_iff, List.mem_append, List.mem_cons, or_imp, forall_and, forall_eq]
  tauto

end Json

theorem Built.storable {room : Nat} {json : Json} (h : Built room json) : json.storable room = true := by
  induction h with
  | null => simp [Json.storable]
  | bool value => simp [Json.storable]
  | str text => simp [Json.storable]
  | nat hn => simp [Json.storable, exceedsDouble_word hn]
  | @negative _ n hn =>
    have hword : exceedsDouble n 0 = false := exceedsDouble_word (Nat.lt_of_le_of_lt hn (by decide))
    simp [Json.storable, hword]
  | arr _ ih => exact storable_arr_iff.mpr ⟨Nat.succ_pos _, ih⟩
  | obj _ ih => exact storable_obj_iff.mpr ⟨Nat.succ_pos _, ih⟩

/-- A value that can be stored still can be stored after a change. -/
theorem Restyled.storable {role : Role} {room : Nat} {json json' : Json}
    (h : Restyled role room json json') (hjson : json.storable room = true) :
    json'.storable room = true := by
  induction h with
  | permuted hperm =>
    rw [storable_obj_iff] at hjson ⊢
    exact ⟨hjson.1, fun member hmember => hjson.2 member (hperm.mem_iff.mpr hmember)⟩
  | inStatement _ _ ih => exact ih hjson
  | dropped => exact (storable_obj_middle.mp hjson).2
  | added _ hvalue => exact storable_obj_middle.mpr ⟨hvalue.storable, hjson⟩
  | inMember _ ih | inValueMember _ ih =>
    rw [storable_obj_middle] at hjson ⊢
    exact ⟨ih hjson.1, hjson.2⟩
  | inField _ ih | inItem _ ih | inValueItem _ ih =>
    rw [storable_arr_middle] at hjson ⊢
    exact ⟨ih hjson.1, hjson.2⟩

/-- Only arrays and objects can be presented in several ways. -/
theorem Restyled.shape {role : Role} {room : Nat} {json json' : Json}
    (h : Restyled role room json json') :
    (∃ members members', json = .obj members ∧ json' = .obj members') ∨
      ∃ items items', json = .arr items ∧ json' = .arr items' := by
  induction h with
  | permuted | dropped | added | inMember | inValueMember => exact .inl ⟨_, _, rfl, rfl⟩
  | inField | inItem | inValueItem => exact .inr ⟨_, _, rfl, rfl⟩
  | inStatement _ _ ih => exact ih

theorem Restyled.ne_null {role : Role} {room : Nat} {json json' : Json}
    (h : Restyled role room json json') : json ≠ .null ∧ json' ≠ .null := by
  obtain ⟨_, _, rfl, rfl⟩ | ⟨_, _, rfl, rfl⟩ := h.shape <;> simp

/-! ### The fields of a record -/

namespace Json

/-- The values of all members with a key. -/
def valuesOf (key : String) (members : List (String × Json)) : List Json :=
  (members.filter (·.1 = key)).map (·.2)

theorem member?_eq_some_iff {key : String} {members : List (String × Json)} {value : Option Json} :
    member? key members = some value ↔ valuesOf key members = value.toList := by
  rw [member?, valuesOf]
  generalize members.filter (·.1 = key) = found
  rcases found with _ | ⟨⟨_, first⟩, _ | ⟨second, rest⟩⟩ <;> cases value <;> simp

theorem valuesOf_append (key : String) (members members' : List (String × Json)) :
    valuesOf key (members ++ members') = valuesOf key members ++ valuesOf key members' := by
  simp [valuesOf]

theorem valuesOf_cons_self (key : String) (value : Json) (members : List (String × Json)) :
    valuesOf key ((key, value) :: members) = value :: valuesOf key members := by
  simp [valuesOf]

theorem valuesOf_cons_ne {key name : String} (h : name ≠ key) (value : Json)
    (members : List (String × Json)) :
    valuesOf key ((name, value) :: members) = valuesOf key members := by
  simp [valuesOf, h]

theorem toList_eq_of_perm {value : Option Json} {values : List Json} (h : value.toList.Perm values) :
    values = value.toList := by
  cases value with
  | none => exact List.nil_perm.mp h
  | some value => exact (List.singleton_perm.mp h).symm

/-- A member that stands among others is the only one with its key. -/
theorem eq_some_of_append_cons {value : Option Json} {before after : List Json} {single : Json}
    (h : before ++ single :: after = value.toList) : before = [] ∧ after = [] ∧ value = some single := by
  cases value with
  | none => simp at h
  | some value =>
    obtain ⟨rfl, h⟩ | ⟨rest, -, h⟩ := List.append_eq_cons_iff.mp h
    · simp at h
      simp [h]
    · simp at h

end Json

/-- What a change of a record does to the value of one of its fields. -/
inductive FieldRestyled (field : Field) (room : Nat) : Option Json → Option Json → Prop where
  | same (value : Option Json) : FieldRestyled field room value value
  | dropped {value} : field.IsDefault value → FieldRestyled field room (some value) none
  | inside {value value'} : Restyled field.role room value value' →
    FieldRestyled field room (some value) (some value')

/-- What a change of a record does to the values of its fields. -/
inductive FieldsRestyled (room : Nat) :
    List Field → List (Option Json) → List (Option Json) → Prop where
  | nil : FieldsRestyled room [] [] []
  | cons {field fields value value' values values'} : FieldRestyled field room value value' →
    FieldsRestyled room fields values values' →
    FieldsRestyled room (field :: fields) (value :: values) (value' :: values')

section

variable {kind : RecordKind} {room : Nat}

/-- A member of an object. Another one with its name is refused, so none is left where it is left out. -/
theorem Restyled.member? {members members' : List (String × Json)}
    (h : Restyled (.record kind) room (.obj members) (.obj members')) {field : Field}
    (hfield : field ∈ kind.fields) {value : Option Json}
    (hvalue : Json.member? field.name members = some value) :
    ∃ value', Json.member? field.name members' = some value' ∧
      FieldRestyled field (room - 1) value value' := by
  simp only [member?_eq_some_iff] at hvalue ⊢
  cases h with
  -- the values under a name are permuted, and there is one of them at most
  | permuted hperm =>
    refine ⟨value, toList_eq_of_perm ?_, .same value⟩
    rw [← hvalue]
    exact (hperm.filter _).map _
  | @dropped _ _ before name single after hdefault =>
    by_cases hname : name = field.name
    · subst hname
      rw [valuesOf_append, valuesOf_cons_self] at hvalue
      obtain ⟨hbefore, hafter, rfl⟩ := eq_some_of_append_cons hvalue
      -- no second member of this name takes its place
      exact ⟨none, by simp [valuesOf_append, hbefore, hafter], .dropped (hdefault.of_mem hfield)⟩
    · rw [valuesOf_append, valuesOf_cons_ne hname, ← valuesOf_append] at hvalue
      exact ⟨value, hvalue, .same value⟩
  | @added _ _ before name single after hname =>
    have hne : name ≠ field.name := fun heq => hname (heq ▸ List.mem_map_of_mem hfield)
    refine ⟨value, ?_, .same value⟩
    rw [valuesOf_append, valuesOf_cons_ne hne, ← valuesOf_append, hvalue]
  | @inMember _ _ before name single single' after hinside =>
    by_cases hname : name = field.name
    · subst hname
      rw [valuesOf_append, valuesOf_cons_self] at hvalue
      obtain ⟨hbefore, hafter, rfl⟩ := eq_some_of_append_cons hvalue
      rw [RecordKind.roleOf_of_mem hfield] at hinside
      refine ⟨some single', ?_, .inside hinside⟩
      rw [valuesOf_append, valuesOf_cons_self, hbefore, hafter]
      rfl
    · rw [valuesOf_append, valuesOf_cons_ne hname] at hvalue
      refine ⟨value, ?_, .same value⟩
      rw [valuesOf_append, valuesOf_cons_ne hname, hvalue]

/-- What holds for each field holds for the values of all of them. -/
theorem exists_fieldsRestyled {members members' : List (String × Json)} {fields : List Field}
    (h : ∀ field ∈ fields, ∀ value, Json.member? field.name members = some value →
      ∃ value', Json.member? field.name members' = some value' ∧
        FieldRestyled field room value value') {values : List (Option Json)}
    (hvalues : (fields.map (·.name)).mapM (Json.member? · members) = some values) :
    ∃ values', (fields.map (·.name)).mapM (Json.member? · members') = some values' ∧
      FieldsRestyled room fields values values' := by
  induction fields generalizing values with
  | nil =>
    cases hvalues
    exact ⟨[], rfl, .nil⟩
  | cons field fields ih =>
    simp only [List.map_cons, List.mapM_cons, Option.bind_eq_bind, Option.bind_eq_some_iff,
      Option.pure_def, Option.some.injEq] at hvalues
    obtain ⟨value, hvalue, rest, hrest, rfl⟩ := hvalues
    obtain ⟨value', hvalue', hfield⟩ := h field List.mem_cons_self value hvalue
    obtain ⟨rest', hrest', hfields⟩ := ih (fun f hf => h f (List.mem_cons_of_mem field hf)) hrest
    refine ⟨value' :: rest', ?_, .cons hfield hfields⟩
    simp [hvalue', hrest']

theorem fieldsRestyled_refl {fields : List Field} {values : List (Option Json)}
    (h : values.length = fields.length) : FieldsRestyled room fields values values := by
  induction fields generalizing values with
  | nil =>
    obtain rfl := List.eq_nil_of_length_eq_zero h
    exact .nil
  | cons field fields ih =>
    obtain ⟨value, rest, rfl⟩ := List.exists_cons_of_length_eq_add_one h
    exact .cons (.same value) (ih (by simpa using h))

theorem fieldsRestyled_middle {fields : List Field} {before after : List (Option Json)}
    {value value' : Json} (hlength : (before ++ some value :: after).length = fields.length)
    (h : ∀ field, fields[before.length]? = some field → Restyled field.role room value value') :
    FieldsRestyled room fields (before ++ some value :: after) (before ++ some value' :: after) := by
  induction before generalizing fields with
  | nil =>
    obtain ⟨field, fields, rfl⟩ := List.exists_cons_of_length_eq_add_one hlength.symm
    exact .cons (.inside (h field rfl)) (fieldsRestyled_refl (by simpa using hlength))
  | cons first before ih =>
    obtain ⟨field, fields, rfl⟩ := List.exists_cons_of_length_eq_add_one hlength.symm
    exact .cons (.same first) (ih (by simpa using hlength) fun f hf => h f (by simpa using hf))

/-- The values of the fields follow a change of their record. -/
theorem Restyled.fields? {json json' : Json} (h : Restyled (.record kind) room json json')
    {values : List (Option Json)} (hvalues : Json.fields? kind.names json = some values) :
    ∃ values', Json.fields? kind.names json' = some values' ∧
      FieldsRestyled (room - 1) kind.fields values values' := by
  obtain ⟨members, members', rfl, rfl⟩ | ⟨items, items', rfl, rfl⟩ := h.shape
  · exact exists_fieldsRestyled (fun _ hfield _ => h.member? hfield) hvalues
  · cases h with
    | @inField _ _ before value value' after hinside =>
      have hnames : kind.names.length = kind.fields.length := List.length_map ..
      simp only [Json.fields?, List.length_append, List.length_cons, hnames, Option.ite_none_right_eq_some,
        Option.some.injEq, List.map_append, List.map_cons, List.append_assoc,
        List.cons_append] at hvalues ⊢
      obtain ⟨hlength, rfl⟩ := hvalues
      refine ⟨_, ⟨hlength, rfl⟩, fieldsRestyled_middle ?_ fun field hfield => ?_⟩
      · simp
        omega
      · rw [List.length_map] at hfield
        rwa [RecordKind.roleAt, hfield] at hinside

end

end HelpAudit
