import HelpAudit.Proofs.ConfigTrees
import HelpAudit.Proofs.TomlLines

/-! TOML documents of configurations are read back. The lines of a document build up a table from the front:
    a header opens a table at the end of what is there, and entries fill the table that was opened last. A
    place (`IsPlace`) is a position in the tables together with all that stands around it; opening a table
    and adding entries change only what stands in the place. Main statement: `ofText?_render`, by which the
    document of a configuration denotes its members. -/

namespace HelpAudit.Toml

/-! ### Lines of tables -/

/-- The members that are not tables are values, and are read as the given entries. -/
inductive HasValues : List (String × Json) → List (String × Toml) → Prop where
  | nil : HasValues [] []
  | value {name tree value members entries} : IsValue tree value → HasValues members entries →
    HasValues ((name, tree) :: members) ((name, value) :: entries)
  | table {name inner members entries} : HasValues members entries →
    HasValues ((name, .obj inner) :: members) entries

/-- The lines of entries. -/
def entryLines (entries : List (String × Toml)) : List Line :=
  entries.map fun entry => .entry [entry.1] entry.2

theorem isTable_of_isValue {tree : Json} {value : Toml} (h : IsValue tree value) : isTable tree = false := by
  cases h <;> rfl

theorem HasLines.entries {members : List (String × Json)} {entries : List (String × Toml)}
    (h : HasValues members entries) {rest : List Char} {found : List Line} (hrest : HasLines rest found) :
    HasLines (renderEntries members ++ rest) (entryLines entries ++ found) := by
  induction h with
  | nil => exact hrest
  | @value name tree value members entries hvalue _ ih =>
    rw [renderEntries, if_neg (by simp [isTable_of_isValue hvalue]), List.append_assoc]
    exact .entry name hvalue ih
  | @table name inner members entries _ ih => exact ih

/-- A table that has a header, before the tables in it. -/
theorem HasLines.table {path : List String} (hne : path ≠ []) {members : List (String × Json)}
    (hheader : (members.isEmpty || members.any (!isTable ·.2)) = true) {entries : List (String × Toml)}
    (h : HasValues members entries) {rest : List Char} {found : List Line}
    (hrest : HasLines (renderTables path members ++ rest) found) :
    HasLines (renderTable path (.obj members) ++ rest) (.table path :: (entryLines entries ++ found)) := by
  rw [renderTable, if_pos hheader, List.append_assoc, List.append_assoc]
  exact .header hne (.entries h hrest)

/-! ### Tables at a path -/

variable {path : List String} {around : List (String × Toml) → List (String × Toml)}

/-- A header with the path leads to a table with the given entries; what is around it stays. -/
def LeadsTo (path : List String) (root : List (String × Toml))
    (around : List (String × Toml) → List (String × Toml)) (inner : List (String × Toml)) : Prop :=
  ∀ change, atHeader change path root = (change inner).map around

/-- Whatever table stands in the place, a header with the path leads to it. -/
def IsPlace (path : List String) (around : List (String × Toml) → List (String × Toml)) : Prop :=
  ∀ inner, LeadsTo path (around inner) around inner

theorem isPlace_root : IsPlace [] id := by
  intro inner change
  rw [atHeader, Option.map_id]
  rfl

theorem lookup_append_new {name : String} {front : List (String × Toml)} (h : front.lookup name = none)
    (value : Toml) : (front ++ [(name, value)]).lookup name = some value := by
  rw [List.lookup_append, h]
  simp

theorem set_append_new {name : String} {front : List (String × Toml)} (h : front.lookup name = none)
    (value other : Toml) : Entries.set name value (front ++ [(name, other)]) = front ++ [(name, value)] := by
  induction front with
  | nil => simp [Entries.set]
  | cons entry front ih =>
    rw [List.lookup_cons] at h
    split at h
    · cases h
    · rename_i hne
      have hentry : entry.1 ≠ name := by
        intro heq
        simp [heq] at hne
      rw [List.cons_append, Entries.set, if_neg hentry, ih h]
      rfl

theorem atHeader_append (change : List (String × Toml) → Option (List (String × Toml)))
    (path more : List String) (entries : List (String × Toml)) :
    atHeader change (path ++ more) entries = atHeader (atHeader change more) path entries := by
  induction path generalizing entries with
  | nil => rfl
  | cons key path ih => simp only [List.cons_append, atHeader, ih]

/-- A place inside a table that stands last in a place. -/
theorem IsPlace.nested (h : IsPlace path around) {name : String} {front : List (String × Toml)}
    (hnew : front.lookup name = none) {kind : TableKind} (hkind : kind ≠ .inline) :
    IsPlace (path ++ [name]) fun inner => around (front ++ [(name, .table kind inner)]) := by
  intro inner change
  rw [atHeader_append, h]
  simp only [atHeader, lookup_append_new hnew, if_neg hkind, set_append_new hnew]
  cases change inner <;> rfl

/-- A table that is named on the way for the first time is empty and implied. -/
theorem leadsTo_new {name : String} {root : List (String × Toml)} (h : root.lookup name = none) :
    LeadsTo [name] root (fun inner => root ++ [(name, .table .implied inner)]) [] := by
  intro change
  simp only [atHeader, h]
  cases change [] <;> rfl

theorem lookup_eq_none_of_nodup {front : List (String × Toml)} {name : String} {value : Toml}
    {rest : List (String × Toml)} (h : ((front ++ (name, value) :: rest).map (·.1)).Nodup) :
    front.lookup name = none := by
  rw [List.map_append, List.map_cons, List.nodup_append] at h
  rw [List.lookup_eq_none_iff]
  intro entry hentry
  simpa using (h.2.2 entry.1 (List.mem_map_of_mem hentry) name List.mem_cons_self).symm

theorem build_entries (h : IsPlace path around) (entries inner : List (String × Toml))
    (hnew : ((inner ++ entries).map (·.1)).Nodup) (rest : List Line) :
    build path (around inner) (entryLines entries ++ rest) = build path (around (inner ++ entries)) rest := by
  induction entries generalizing inner with
  | nil => simp [entryLines]
  | cons entry entries ih =>
    have hentry := lookup_eq_none_of_nodup hnew
    rw [List.append_cons] at hnew ⊢
    rw [← ih (inner ++ [entry]) hnew]
    simp [entryLines, build, h inner _, addEntry, addDotted, hentry]

/-- A header that opens a new table, and the entries of that table. -/
theorem build_table (h : IsPlace path around) {root inner : List (String × Toml)}
    (hroot : LeadsTo path root around inner) {name : String} (hnew : inner.lookup name = none)
    {entries : List (String × Toml)} (hentries : (entries.map (·.1)).Nodup) (header : List String)
    (rest : List Line) :
    build header root (.table (path ++ [name]) :: (entryLines entries ++ rest)) =
      build (path ++ [name]) (around (inner ++ [(name, .table .defined entries)])) rest := by
  have hplace := h.nested hnew (show TableKind.defined ≠ .inline by simp)
  have hopen : build header root (.table (path ++ [name]) :: (entryLines entries ++ rest)) =
      build (path ++ [name]) (around (inner ++ [(name, .table .defined [])])) (entryLines entries ++ rest) := by
    simp [build, hroot _, openTable, hnew]
  rw [hopen]
  exact build_entries hplace entries [] hentries rest

/-! ### Configurations -/

/-- The values among the general settings. -/
def settingsValues (settings : Settings) : List (String × Toml) :=
  (settings.threads.map fun n => ("threads", .int n)).toList ++ [("use_colors", .bool settings.useColors)]

/-- The table of the settings for dynamic parameters. -/
def dynamicValues (dynamic : DynamicSettings) : List (String × Toml) :=
  [("enabled", .bool dynamic.enabled), ("interpreter", .str dynamic.interpreter),
    ("interpreter_args", .arr (dynamic.interpreterArgs.map .str)), ("timeout_ms", .int dynamic.timeoutMs)]

/-- The tables of the rules. -/
def ruleTables (rules : List (String × RuleConfig)) : List (String × Toml) :=
  rules.map fun (name, rule) => (name, .table .defined [("enabled", .bool rule.enabled)])

/-- The lines of the rules. -/
def ruleLines (rules : List (String × RuleConfig)) : List Line :=
  rules.flatMap fun (name, rule) => [.table ["rules", name], .entry ["enabled"] (.bool rule.enabled)]

open DataFormat (settingsMembers dynamicMembers ruleMembers)

theorem hasValues_settings {settings : Settings} (h : ∀ n ∈ settings.threads, n < intLimit) :
    HasValues (settingsMembers settings) (settingsValues settings) := by
  obtain ⟨threads, useColors, dynamic⟩ := settings
  cases threads with
  | none => exact .value (.bool _) (.table .nil)
  | some n => exact .value (.nat (h n rfl)) (.value (.bool _) (.table .nil))

theorem hasValues_dynamic {dynamic : DynamicSettings} (h : dynamic.timeoutMs < intLimit) :
    HasValues (dynamicMembers dynamic) (dynamicValues dynamic) :=
  .value (.bool _) (.value (.str _) (.value (.strings _) (.value (.nat h) .nil)))

theorem hasLines_rules (rules : List (String × RuleConfig)) :
    HasLines (renderTables ["rules"] (ruleMembers rules)) (ruleLines rules) := by
  induction rules with
  | nil => exact hasLines_nil
  | cons rule rules ih =>
    have hentry : HasValues [("enabled", .bool rule.2.enabled)] [("enabled", .bool rule.2.enabled)] :=
      .value (.bool _) .nil
    exact .table (by simp) rfl hentry ih

theorem hasLines_settings {settings : Settings} (hthreads : ∀ n ∈ settings.threads, n < intLimit)
    (htimeout : settings.dynamicParameters.timeoutMs < intLimit) {rest : List Char} {found : List Line}
    (hrest : HasLines rest found) :
    HasLines (renderTable ["settings"] (.obj (settingsMembers settings)) ++ rest)
      (.table ["settings"] :: (entryLines (settingsValues settings) ++
        .table ["settings", "dynamic_parameters"] ::
          (entryLines (dynamicValues settings.dynamicParameters) ++ found))) := by
  have hdynamic : HasLines (renderTable ["settings", "dynamic_parameters"]
      (.obj (dynamicMembers settings.dynamicParameters)) ++ rest) _ :=
    .table (by simp) rfl (hasValues_dynamic htimeout) hrest
  refine .table (by simp) ?_ (hasValues_settings hthreads) ?_
  · simp [settingsMembers, isTable]
  · obtain ⟨_ | n, useColors, dynamic⟩ := settings
    · simpa [settingsMembers, Json.memberIfSome, renderTables, renderTable] using hdynamic
    · simpa [settingsMembers, Json.memberIfSome, renderTables, renderTable] using hdynamic

/-- The lines of a configuration. -/
def configLines (config : Config) : List Line :=
  .entry ["version"] (.str config.version) :: .table ["settings"] ::
    (entryLines (settingsValues config.settings) ++ .table ["settings", "dynamic_parameters"] ::
      (entryLines (dynamicValues config.settings.dynamicParameters) ++
        if config.rules.isEmpty then [.table ["rules"]] else ruleLines config.rules))

theorem renderEntries_rules (rules : List (String × RuleConfig)) : renderEntries (ruleMembers rules) = [] := by
  induction rules with
  | nil => rfl
  | cons rule rules ih => exact ih

theorem hasLines_ruleTable (rules : List (String × RuleConfig)) :
    HasLines (renderTable ["rules"] (.obj (ruleMembers rules)) ++ [])
      (if rules.isEmpty then [.table ["rules"]] else ruleLines rules) := by
  cases rules with
  | nil => exact .table (by simp) rfl .nil hasLines_nil
  | cons rule rules =>
    have hheader : ((ruleMembers (rule :: rules)).isEmpty ||
        (ruleMembers (rule :: rules)).any (!isTable ·.2)) = false := by
      simp [ruleMembers, isTable]
    rw [renderTable, hheader, renderEntries_rules, List.append_nil]
    exact hasLines_rules (rule :: rules)

theorem hasLines_config {config : Config} (h : config.NumbersBelow intLimit) :
    HasLines (renderEntries config.members ++ renderTables [] config.members) (configLines config) :=
  .entries (.value (.str _) (.table (.table .nil)))
    (hasLines_settings h.threads h.timeout (hasLines_ruleTable config.rules))

/-! ### Building the tables -/

theorem build_rule (h : IsPlace ["rules"] around) {root inner : List (String × Toml)}
    (hroot : LeadsTo ["rules"] root around inner) {rule : String × RuleConfig}
    (hnew : inner.lookup rule.1 = none) (rules : List (String × RuleConfig)) (header : List String) :
    build header root (ruleLines (rule :: rules)) =
      build ["rules", rule.1] (around (inner ++ ruleTables [rule])) (ruleLines rules) := by
  have hentries : (([("enabled", .bool rule.2.enabled)] : List (String × Toml)).map (·.1)).Nodup := by simp
  exact build_table h hroot hnew hentries header (ruleLines rules)

theorem build_rules (h : IsPlace ["rules"] around) (rules : List (String × RuleConfig))
    (inner : List (String × Toml)) (hnew : ((inner ++ ruleTables rules).map (·.1)).Nodup)
    (header : List String) :
    build header (around inner) (ruleLines rules) = some (around (inner ++ ruleTables rules)) := by
  induction rules generalizing inner header with
  | nil => simp [ruleLines, ruleTables, build]
  | cons rule rules ih =>
    rw [build_rule h (h inner) (lookup_eq_none_of_nodup hnew), ih _ (by simpa [ruleTables] using hnew)]
    simp [ruleTables]

/-- The table that the lines of a configuration build up. -/
def configTable (config : Config) : List (String × Toml) :=
  [("version", .str config.version),
    ("settings", .table .defined (settingsValues config.settings ++
      [("dynamic_parameters", .table .defined (dynamicValues config.settings.dynamicParameters))])),
    ("rules", .table (if config.rules.isEmpty then .defined else .implied) (ruleTables config.rules))]

/-- The rules come last: their table is opened when it is empty, and else named on the way to its own. -/
theorem build_ruleTable {rules : List (String × RuleConfig)} (hrules : (rules.map (·.1)).Nodup)
    {root : List (String × Toml)} (hroot : root.lookup "rules" = none) (header : List String) :
    build header root (if rules.isEmpty then [.table ["rules"]] else ruleLines rules) =
      some (root ++ [("rules", .table (if rules.isEmpty then .defined else .implied) (ruleTables rules))]) := by
  cases rules with
  | nil =>
    have hentries : (([] : List (String × Toml)).map (·.1)).Nodup := List.nodup_nil
    exact build_table isPlace_root (isPlace_root root) hroot hentries header []
  | cons rule rules =>
    have hplace : IsPlace ["rules"] fun inner => root ++ [("rules", .table .implied inner)] :=
      isPlace_root.nested hroot (by simp)
    have hnew : ((ruleTables [rule] ++ ruleTables rules).map (·.1)).Nodup := by
      simpa [ruleTables, Function.comp_def] using hrules
    exact (build_rule hplace (leadsTo_new hroot) rfl rules header).trans
      (build_rules hplace rules (ruleTables [rule]) hnew _)

theorem build_config {config : Config} (hrules : (config.rules.map (·.1)).Nodup) :
    build [] [] (configLines config) = some (configTable config) := by
  have hsettings : ((settingsValues config.settings).map (·.1)).Nodup := by
    obtain ⟨_, ⟨_ | n, useColors, dynamic⟩, _⟩ := config <;> simp [settingsValues]
  have hdynamic : (settingsValues config.settings).lookup "dynamic_parameters" = none := by
    obtain ⟨_, ⟨_ | n, useColors, dynamic⟩, _⟩ := config <;> rfl
  have hplace : IsPlace ["settings"] fun inner =>
      [("version", .str config.version)] ++ [("settings", .table .defined inner)] :=
    isPlace_root.nested rfl (by simp)
  have hversion : ∀ rest, build [] [] (.entry ["version"] (.str config.version) :: rest) =
      build [] [("version", .str config.version)] rest := fun rest =>
    build_entries isPlace_root [("version", .str config.version)] [] (by simp) rest
  rw [configLines, hversion]
  refine (build_table isPlace_root (isPlace_root _) rfl hsettings [] _).trans ?_
  refine (build_table hplace (hplace _) hdynamic (by simp [dynamicValues]) _ _).trans ?_
  exact build_ruleTable hrules rfl _

/-! ### What the table denotes -/

theorem denotes_table {members : List (String × Json)} {entries : List (String × Toml)}
    (h : DataFormat.toml.DenotesMembers members entries) (kind : TableKind) :
    DataFormat.toml.Denotes (.obj members) (.table kind entries) :=
  ⟨entries, rfl, fun _ => rfl, h⟩

theorem denotes_int (n : Nat) : DataFormat.toml.Denotes (.nat n) (.int n) := by
  have hnat : nat? (.int n) = some n := by simp [nat?]
  exact ⟨hnat, rfl⟩

theorem denotes_strings (texts : List String) :
    DataFormat.toml.Denotes (.strings texts) (.arr (texts.map .str)) := by
  refine ⟨_, rfl, ?_⟩
  induction texts with
  | nil => trivial
  | cons text texts ih => exact ⟨rfl, ih⟩

theorem denotes_rules (rules : List (String × RuleConfig)) :
    DataFormat.toml.DenotesMembers (ruleMembers rules) (ruleTables rules) := by
  induction rules with
  | nil => trivial
  | cons rule rules ih =>
    have hrule : DataFormat.toml.DenotesMembers [("enabled", .bool rule.2.enabled)]
        [("enabled", .bool rule.2.enabled)] := ⟨rfl, rfl, trivial⟩
    exact ⟨rfl, denotes_table hrule .defined, ih⟩

theorem denotes_configTable (config : Config) :
    DataFormat.toml.Denotes (.obj config.members) (.table .defined (configTable config)) := by
  have hdynamic : DataFormat.toml.DenotesMembers (dynamicMembers config.settings.dynamicParameters)
      (dynamicValues config.settings.dynamicParameters) :=
    ⟨rfl, rfl, rfl, rfl, rfl, denotes_strings _, rfl, denotes_int _, trivial⟩
  have hsettings : DataFormat.toml.DenotesMembers (settingsMembers config.settings)
      (settingsValues config.settings ++
        [("dynamic_parameters", .table .defined (dynamicValues config.settings.dynamicParameters))]) := by
    obtain ⟨_, ⟨_ | n, useColors, dynamic⟩, _⟩ := config
    · exact ⟨rfl, rfl, rfl, denotes_table hdynamic .defined, trivial⟩
    · exact ⟨rfl, denotes_int n, rfl, rfl, rfl, denotes_table hdynamic .defined, trivial⟩
  have hconfig : DataFormat.toml.DenotesMembers config.members (configTable config) :=
    ⟨rfl, rfl, rfl, denotes_table hsettings .defined, rfl, denotes_table (denotes_rules config.rules) _, trivial⟩
  exact denotes_table hconfig .defined

/-- The document of a configuration denotes its members. -/
theorem ofText?_render {config : Config} (h : config.NumbersBelow intLimit)
    (hrules : (config.rules.map (·.1)).Nodup) :
    ∃ value, ofText? (render config.members) = some value ∧
      DataFormat.toml.Denotes (.obj config.members) value := by
  refine ⟨_, ?_, denotes_configTable config⟩
  have hlines := hasLines_config h _ (Nat.lt_succ_self _)
  -- the text starts with the key of the version
  have hmark : ∀ tail, renderEntries config.members ++ renderTables [] config.members ≠ '\ufeff' :: tail := by
    intro tail heq
    exact absurd (List.cons.inj heq).1 (show 'v' ≠ '\ufeff' by decide)
  simp only [render, ofText?, String.toList_ofList]
  rw [hlines, Option.bind_eq_bind, Option.bind_some, build_config hrules]
  rfl

end HelpAudit.Toml
