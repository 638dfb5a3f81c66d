import HelpAudit.Config.Data

/-! Values of a data format and the trees that they denote. A value denotes a tree when the readers of the
    format find in it what stands in the tree, part by part. Main statement: `config?_of_denotes`, by which
    a format reads a configuration from every value that denotes its members. -/

namespace HelpAudit

/-- The numbers of a configuration are below a limit. -/
structure Config.NumbersBelow (config : Config) (limit : Nat) : Prop where
  threads : ∀ n ∈ config.settings.threads, n < limit
  timeout : config.settings.dynamicParameters.timeoutMs < limit

namespace DataFormat

variable {ν : Type} {format : DataFormat ν}

mutual

/-- The value denotes the tree. -/
def Denotes (format : DataFormat ν) : Json → ν → Prop
  | .str text, value => format.string? value = some text
  | .bool b, value => format.bool? value = some b
  | .nat n, value => format.word? value = some n ∧ format.isNull value = false
  | .arr items, value => ∃ found, format.items? value = some found ∧ format.DenotesItems items found
  | .obj members, value => ∃ entries, format.entries? value = some entries ∧
      (∀ names, format.record? names value = some (names.map (entries.lookup ·))) ∧
      format.DenotesMembers members entries
  | _, _ => False

/-- The values denote the items of an array, one after the other. -/
def DenotesItems (format : DataFormat ν) : List Json → List ν → Prop
  | [], [] => True
  | item :: items, value :: values => format.Denotes item value ∧ format.DenotesItems items values
  | _, _ => False

/-- The entries have the names of the members, in their order, and denote what they name. -/
def DenotesMembers (format : DataFormat ν) : List (String × Json) → List (String × ν) → Prop
  | [], [] => True
  | (name, tree) :: members, (key, value) :: entries =>
    key = name ∧ format.Denotes tree value ∧ format.DenotesMembers members entries
  | _, _ => False

end

theorem DenotesMembers.eq_nil {entries : List (String × ν)} (h : format.DenotesMembers [] entries) :
    entries = [] := by
  cases entries with
  | nil => rfl
  | cons entry entries => exact h.elim

theorem DenotesMembers.exists_cons {name : String} {tree : Json} {members : List (String × Json)}
    {entries : List (String × ν)} (h : format.DenotesMembers ((name, tree) :: members) entries) :
    ∃ value others, entries = (name, value) :: others ∧ format.Denotes tree value ∧
      format.DenotesMembers members others := by
  cases entries with
  | nil => exact h.elim
  | cons entry entries =>
    obtain ⟨rfl, hvalue, hothers⟩ := h
    exact ⟨entry.2, entries, rfl, hvalue, hothers⟩

theorem DenotesMembers.names {members : List (String × Json)} {entries : List (String × ν)}
    (h : format.DenotesMembers members entries) : entries.map (·.1) = members.map (·.1) := by
  induction members generalizing entries with
  | nil =>
    obtain rfl := h.eq_nil
    rfl
  | cons member members ih =>
    obtain ⟨value, others, rfl, -, hothers⟩ := h.exists_cons
    rw [List.map_cons, List.map_cons, ih hothers]

/-! ### Settings -/

theorem ruleConfig?_of_denotes {rule : RuleConfig} {value : ν}
    (h : format.Denotes (.obj [("enabled", .bool rule.enabled)]) value) :
    format.ruleConfig? value = some rule := by
  obtain ⟨entries, -, hrecord, hmembers⟩ := h
  obtain ⟨enabled, others, rfl, henabled, -⟩ := hmembers.exists_cons
  have hbool : format.bool? enabled = some rule.enabled := henabled
  simp [ruleConfig?, hrecord, field, hbool]

theorem mapM_string?_of_denotes {texts : List String} {values : List ν}
    (h : format.DenotesItems (texts.map .str) values) : values.mapM format.string? = some texts := by
  induction texts generalizing values with
  | nil =>
    cases values with
    | nil => rfl
    | cons value values => exact h.elim
  | cons text texts ih =>
    cases values with
    | nil => exact h.elim
    | cons value values =>
      obtain ⟨hvalue, hvalues⟩ := h
      have hstring : format.string? value = some text := hvalue
      simp [hstring, ih hvalues]

/-- The members of the settings for dynamic parameters. -/
def dynamicMembers (dynamic : DynamicSettings) : List (String × Json) :=
  [("enabled", .bool dynamic.enabled), ("interpreter", .str dynamic.interpreter),
    ("interpreter_args", .strings dynamic.interpreterArgs), ("timeout_ms", .nat dynamic.timeoutMs)]

theorem dynamicSettings?_of_denotes {dynamic : DynamicSettings} {value : ν}
    (h : format.Denotes (.obj (dynamicMembers dynamic)) value) :
    format.dynamicSettings? value = some dynamic := by
  obtain ⟨entries, -, hrecord, hmembers⟩ := h
  obtain ⟨enabled, _, rfl, henabled, hmembers⟩ := hmembers.exists_cons
  obtain ⟨interpreter, _, rfl, hinterpreter, hmembers⟩ := hmembers.exists_cons
  obtain ⟨args, _, rfl, ⟨found, hfound, hargs⟩, hmembers⟩ := hmembers.exists_cons
  obtain ⟨timeout, _, rfl, ⟨htimeout, -⟩, -⟩ := hmembers.exists_cons
  have hbool : format.bool? enabled = some dynamic.enabled := henabled
  have hstring : format.string? interpreter = some dynamic.interpreter := hinterpreter
  simp [dynamicSettings?, hrecord, field, hbool, hstring, hfound, mapM_string?_of_denotes hargs, htimeout,
    List.lookup_cons]

/-- The members of general settings. -/
def settingsMembers (settings : Settings) : List (String × Json) :=
  let dynamic := settings.dynamicParameters
  Json.memberIfSome "threads" (settings.threads.map .nat) ++
    [("use_colors", .bool settings.useColors), ("dynamic_parameters", .obj (dynamicMembers dynamic))]

/-- General settings are read back, with the number of threads or without. -/
theorem settings?_of_denotes {settings : Settings} {value : ν}
    (h : format.Denotes (.obj (settingsMembers settings)) value) :
    format.settings? value = some settings := by
  obtain ⟨entries, -, hrecord, hmembers⟩ := h
  obtain ⟨threads, useColors, dynamic⟩ := settings
  cases threads with
  | none =>
    obtain ⟨colors, _, rfl, hcolors, hmembers⟩ := hmembers.exists_cons
    obtain ⟨inner, _, rfl, hinner, hmembers⟩ := hmembers.exists_cons
    obtain rfl := hmembers.eq_nil
    have hbool : format.bool? colors = some useColors := hcolors
    simp [settings?, hrecord, field, optionalField, hbool, dynamicSettings?_of_denotes hinner, List.lookup_cons]
  | some n =>
    obtain ⟨count, _, rfl, ⟨hcount, hnull⟩, hmembers⟩ := hmembers.exists_cons
    obtain ⟨colors, _, rfl, hcolors, hmembers⟩ := hmembers.exists_cons
    obtain ⟨inner, _, rfl, hinner, -⟩ := hmembers.exists_cons
    have hbool : format.bool? colors = some useColors := hcolors
    simp [settings?, hrecord, field, optionalField, hbool, dynamicSettings?_of_denotes hinner, hcount,
      hnull, List.lookup_cons]

/-! ### Rules -/

/-- The members of the rules. -/
def ruleMembers (rules : List (String × RuleConfig)) : List (String × Json) :=
  rules.map fun (name, rule) => (name, .obj [("enabled", .bool rule.enabled)])

theorem keepLast_of_nodup {α : Type} {entries : List (String × α)} (h : (entries.map (·.1)).Nodup) :
    keepLast entries = entries := by
  induction entries with
  | nil => rfl
  | cons entry entries ih =>
    rw [List.map_cons, List.nodup_cons] at h
    have hnew : entries.any (·.1 = entry.1) = false := by
      rw [List.any_eq_false]
      intro other hother heq
      exact h.1 (List.mem_map.mpr ⟨other, hother, by simpa using heq⟩)
    rw [keepLast, hnew, ih h.2]
    rfl

/-- The rules are read back in their order, as long as no name is repeated. -/
theorem rules?_of_denotes {rules : List (String × RuleConfig)} (hrules : (rules.map (·.1)).Nodup)
    {value : ν} (h : format.Denotes (.obj (ruleMembers rules)) value) :
    format.rules? value = some rules := by
  obtain ⟨entries, hentries, -, hmembers⟩ := h
  have hread : (entries.mapM fun entry =>
      (format.ruleConfig? entry.2).bind fun rule => some (entry.1, rule)) = some rules := by
    -- the entries are read one by one; that no name is repeated matters only for keeping them
    clear hrules hentries
    induction rules generalizing entries with
    | nil =>
      obtain rfl := hmembers.eq_nil
      rfl
    | cons rule rules ih =>
      obtain ⟨value, others, rfl, hvalue, hothers⟩ := hmembers.exists_cons
      rw [List.mapM_cons, ih others hothers, ruleConfig?_of_denotes hvalue]
      rfl
  simp only [rules?, hentries, Option.bind_eq_bind, Option.bind_some, Option.pure_def, hread,
    keepLast_of_nodup hrules]

theorem members_eq (config : Config) :
    config.members = [("version", .str config.version),
      ("settings", .obj (settingsMembers config.settings)),
      ("rules", .obj (ruleMembers config.rules))] := rfl

/-- A configuration is read from a value that denotes its members. -/
theorem config?_of_denotes {config : Config} (hrules : (config.rules.map (·.1)).Nodup) {value : ν}
    (h : format.Denotes (.obj config.members) value) : format.config? value = some config := by
  rw [members_eq] at h
  obtain ⟨entries, -, hrecord, hmembers⟩ := h
  obtain ⟨version, _, rfl, hversion, hmembers⟩ := hmembers.exists_cons
  obtain ⟨settings, _, rfl, hsettings, hmembers⟩ := hmembers.exists_cons
  obtain ⟨rules, _, rfl, hentries, -⟩ := hmembers.exists_cons
  have hstring : format.string? version = some config.version := hversion
  simp [config?, hrecord, field, hstring, settings?_of_denotes hsettings,
    rules?_of_denotes hrules hentries, List.lookup_cons]

end DataFormat

end HelpAudit
