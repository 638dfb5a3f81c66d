import Mathlib.Data.List.Dedup
import Mathlib.Data.List.Pairwise
import Mathlib.Tactic.TFAE
import HelpAudit.Proofs.SessionAccounts

/-! Names of rules. Wherever a rule is looked up, the case of ASCII letters does not count and the first
    hit is taken; but the entries of a configuration and the rules of a registry are kept apart as soon
    as their names differ at all. So the order of a configuration's entries has no meaning exactly if
    the entries for spellings of one name say the same, and a registry is a map exactly if no name was
    registered in two spellings. -/

namespace HelpAudit

namespace Text

theorem sameIgnoringAsciiCase_refl (a : String) : sameIgnoringAsciiCase a a = true :=
  beq_self_eq_true _

theorem sameIgnoringAsciiCase_comm (a b : String) :
    sameIgnoringAsciiCase a b = sameIgnoringAsciiCase b a :=
  BEq.comm

theorem sameIgnoringAsciiCase_congr {a b : String} (h : sameIgnoringAsciiCase a b = true)
    (c : String) : sameIgnoringAsciiCase a c = sameIgnoringAsciiCase b c := by
  rw [sameIgnoringAsciiCase, beq_iff_eq] at h
  rw [sameIgnoringAsciiCase, sameIgnoringAsciiCase, h]

end Text

open Text (sameIgnoringAsciiCase sameIgnoringAsciiCase_refl sameIgnoringAsciiCase_comm
  sameIgnoringAsciiCase_congr)

/-! ### Entries of a configuration -/

namespace Config

/-- The configuration with other entries for rules. -/
def withRules (config : Config) (entries : List (String × RuleConfig)) : Config :=
  { config with rules := entries }

/-- Entries whose names differ only in case say the same. -/
def IsUnambiguous (config : Config) : Prop :=
  ∀ a ∈ config.rules, ∀ b ∈ config.rules, sameIgnoringAsciiCase a.1 b.1 = true → a.2 = b.2

section Order

variable {config : Config} {entries : List (String × RuleConfig)}

theorem IsUnambiguous.withRules (h : config.IsUnambiguous) (hperm : entries.Perm config.rules) :
    (config.withRules entries).IsUnambiguous := by
  intro a ha b hb hab
  exact h a (hperm.mem_iff.mp ha) b (hperm.mem_iff.mp hb) hab

/-- Without ambiguity a look-up finds what any of the entries for the name says. -/
theorem IsUnambiguous.rule?_eq_some_iff (h : config.IsUnambiguous) {name : String}
    {rule : RuleConfig} : config.rule? name = some rule ↔
      ∃ entry ∈ config.rules, sameIgnoringAsciiCase entry.1 name = true ∧ entry.2 = rule := by
  rw [rule?, Option.map_eq_some_iff]
  constructor
  · rintro ⟨entry, hfind, hrule⟩
    exact ⟨entry, List.mem_of_find?_eq_some hfind, by simpa using List.find?_some hfind, hrule⟩
  · rintro ⟨entry, hmem, hname, rfl⟩
    cases hfind : config.rules.find? fun entry => sameIgnoringAsciiCase entry.1 name with
    | none => exact absurd hname (List.find?_eq_none.mp hfind entry hmem)
    | some other =>
      have hother : sameIgnoringAsciiCase other.1 name = true := by
        simpa using List.find?_some hfind
      refine ⟨other, rfl, h other (List.mem_of_find?_eq_some hfind) entry hmem ?_⟩
      rw [sameIgnoringAsciiCase_congr hother, sameIgnoringAsciiCase_comm]
      exact hname

theorem IsUnambiguous.rule?_perm (h : config.IsUnambiguous) (hperm : entries.Perm config.rules)
    (name : String) : (config.withRules entries).rule? name = config.rule? name := by
  apply Option.ext
  intro rule
  rw [h.rule?_eq_some_iff, (h.withRules hperm).rule?_eq_some_iff]
  simp only [Config.withRules, hperm.mem_iff]

/-- Every entry is found under its name in some order: the one in which it comes first. -/
theorem exists_perm_rule? {entry : String × RuleConfig} (hmem : entry ∈ config.rules) {name : String}
    (hname : sameIgnoringAsciiCase entry.1 name = true) :
    ∃ entries : List (String × RuleConfig), entries.Perm config.rules ∧
      (config.withRules entries).rule? name = some entry.2 := by
  refine ⟨entry :: config.rules.erase entry, (List.perm_cons_erase hmem).symm, ?_⟩
  simp [rule?, Config.withRules, hname]

end Order

/-- A rule that finds something shows whether it is enabled. -/
theorem analyze_constant (config : Config) (name : String) (found : List Diagnostic)
    (stats : StatsTable) (clock : String → UInt64) (tree : ScriptBlock) (file : Option String) :
    (Engine.analyze ⟨config, ⟨[.constant name (.ok found)]⟩, stats⟩ clock (some tree) file).outcome =
      .ok (if config.isEnabled name then found else []) := by
  rw [Engine.analyze_single rfl, apply_ite Except.ok]
  rfl

/-- What the order of a configuration's entries decides. That it decides neither what is configured
    for a rule, nor whether the rule is enabled, nor which rules of a registry run, nor any part of an
    analysis: each of these holds exactly if the entries are not ambiguous. -/
theorem entry_order_tfae (config : Config) : List.TFAE [
    config.IsUnambiguous,
    ∀ entries : List (String × RuleConfig), entries.Perm config.rules →
      ∀ name, (config.withRules entries).rule? name = config.rule? name,
    ∀ entries : List (String × RuleConfig), entries.Perm config.rules →
      ∀ name, (config.withRules entries).isEnabled name = config.isEnabled name,
    ∀ entries : List (String × RuleConfig), entries.Perm config.rules →
      ∀ registry, enabledRules (config.withRules entries) registry = enabledRules config registry,
    ∀ entries : List (String × RuleConfig), entries.Perm config.rules →
      ∀ registry stats clock tree file,
        Engine.analyze ⟨config.withRules entries, registry, stats⟩ clock tree file =
          Engine.analyze ⟨config, registry, stats⟩ clock tree file] := by
  tfae_have 1 → 2 := fun h entries hperm name => h.rule?_perm hperm name
  tfae_have 2 → 3 := by
    intro h entries hperm name
    rw [isEnabled, isEnabled, h entries hperm]
  tfae_have 3 → 1 := by
    intro h a ha b hb hab
    -- Both orders in which one of the two entries comes first answer for the name of `b`.
    obtain ⟨first, hfirst, harule⟩ := exists_perm_rule? ha hab
    obtain ⟨second, hsecond, hbrule⟩ := exists_perm_rule? hb (sameIgnoringAsciiCase_refl b.1)
    have heq := (h first hfirst b.1).trans (h second hsecond b.1).symm
    simp only [isEnabled, harule, hbrule, Option.map_some, Option.getD_some] at heq
    exact congrArg RuleConfig.mk heq
  tfae_have 3 → 4 := by
    intro h entries hperm registry
    rw [enabledRules, enabledRules]
    exact List.filter_congr fun rule _ => h entries hperm rule.name
  tfae_have 4 → 5 := by
    intro h entries hperm registry stats clock tree file
    have hrules := h entries hperm registry
    rw [enabledRules, enabledRules] at hrules
    cases tree with
    | none => rfl
    | some tree => simp only [Engine.analyze, runRules_eq, hrules]
  tfae_have 5 → 3 := by
    intro h entries hperm name
    have hrun := h entries hperm
      ⟨[.constant name (.ok [⟨"", ⟨none, 1, 1, 1, 1, 0, 0, ""⟩, name, .warning, none, none, none, []⟩])]⟩
      [] (fun _ => 0) (some ⟨⟨none, 1, 1, 1, 1, 0, 0, ""⟩, none, []⟩) none
    have houtcome := congrArg Analysis.outcome hrun
    rw [analyze_constant, analyze_constant] at houtcome
    cases hthere : (config.withRules entries).isEnabled name <;>
      cases hhere : config.isEnabled name <;> simp_all
  tfae_finish

/-- A name in two spellings, one enabled and one not: the entry that comes first decides whether the
    rule runs. -/
theorem entry_order_decides_between_spellings :
    let extent : Extent := ⟨none, 1, 1, 1, 1, 0, 0, ""⟩
    let config : Config := { rules := [("Rule", ⟨true⟩), ("RULE", ⟨false⟩)] }
    let entries : List (String × RuleConfig) := [("RULE", ⟨false⟩), ("Rule", ⟨true⟩)]
    let found : List Diagnostic := [⟨"a", extent, "Rule", .warning, none, none, none, []⟩]
    let run (config : Config) := Engine.analyze ⟨config, ⟨[.constant "Rule" (.ok found)]⟩, []⟩
      (fun _ => 0) (some ⟨extent, none, []⟩) none
    (config.rules.map Prod.fst).Nodup ∧ entries.Perm config.rules ∧
    config.rule? "Rule" = some ⟨true⟩ ∧ (config.withRules entries).rule? "Rule" = some ⟨false⟩ ∧
    (run config).outcome = .ok found ∧ (run (config.withRules entries)).outcome = .ok [] := by
  intro extent config entries found run
  refine ⟨by decide, List.Perm.swap _ _ _, by decide, by decide, ?_, ?_⟩
  · rw [analyze_constant]
    decide
  · rw [analyze_constant]
    decide

end Config

/-! ### Rules of a registry -/

/-- Names that differ differ in more than the case of letters. -/
def SpelledOneWay (names : List String) : Prop :=
  ∀ a ∈ names, ∀ b ∈ names, sameIgnoringAsciiCase a b = true → a = b

theorem SpelledOneWay.mono {names others : List String} (h : SpelledOneWay others)
    (hsubset : names ⊆ others) : SpelledOneWay names :=
  fun a ha b hb => h a (hsubset ha) b (hsubset hb)

/-- Different names have one spelling each if no two of them answer to one name. -/
theorem spelledOneWay_iff_pairwise {names : List String} (hnodup : names.Nodup) :
    SpelledOneWay names ↔ names.Pairwise fun a b => sameIgnoringAsciiCase a b = false := by
  constructor
  · intro h
    refine hnodup.imp_of_mem ?_
    intro a b ha hb hne
    rw [← Bool.not_eq_true]
    exact fun hsame => hne (h a ha b hb hsame)
  · intro h a ha b hb hsame
    have hsymm : Std.Symm fun a b => sameIgnoringAsciiCase a b = false :=
      ⟨fun a b hab => by rwa [sameIgnoringAsciiCase_comm]⟩
    by_contra hne
    exact Bool.false_ne_true ((h.forall ha hb hne).symm.trans hsame)

namespace Registry

/-- The registry after rules were registered one after the other. -/
def ofHistory (history : List Rule) : Registry := history.foldl register {}

/-- The last of the rules with a name, whatever the case of its letters. -/
def lastNamed? (history : List Rule) (name : String) : Option Rule :=
  history.reverse.find? fun rule => sameIgnoringAsciiCase rule.name name

theorem ofHistory_concat (history : List Rule) (rule : Rule) :
    ofHistory (history ++ [rule]) = (ofHistory history).register rule := by
  rw [ofHistory, List.foldl_append]
  rfl

theorem names_register (registry : Registry) (rule : Rule) :
    (registry.register rule).names = registry.names.filter (· ≠ rule.name) ++ [rule.name] := by
  rw [register, names, List.map_append, names, List.filter_map]
  rfl

/-- Of equal names the last one stays. -/
theorem dedup_concat (name : String) : ∀ names : List String,
    (names ++ [name]).dedup = names.dedup.filter (· ≠ name) ++ [name]
  | [] => rfl
  | other :: names => by
    have ih := dedup_concat name names
    by_cases hmem : other ∈ names
    · rw [List.cons_append, List.dedup_cons_of_mem (by simp [hmem]), List.dedup_cons_of_mem hmem, ih]
    · rw [List.dedup_cons_of_notMem hmem, List.cons_append]
      by_cases hname : other = name
      · rw [List.dedup_cons_of_mem (by simp [hname]), ih, List.filter_cons_of_neg (by simp [hname])]
      · rw [List.dedup_cons_of_notMem (by simp [hmem, hname]), ih,
          List.filter_cons_of_pos (by simp [hname]), List.cons_append]

/-- A registry has the names of its history in the order of their last registrations. -/
theorem names_ofHistory (history : List Rule) :
    (ofHistory history).names = (history.map (·.name)).dedup := by
  induction history using List.reverseRecOn with
  | nil => rfl
  | append_singleton history rule ih =>
    rw [ofHistory_concat, names_register, ih, List.map_append, List.map_singleton, dedup_concat]

theorem get?_congr (registry : Registry) {a b : String} (h : sameIgnoringAsciiCase a b = true) :
    registry.get? a = registry.get? b := by
  rw [get?, get?]
  congr 1
  funext rule
  rw [sameIgnoringAsciiCase_comm rule.name a, sameIgnoringAsciiCase_comm rule.name b]
  exact sameIgnoringAsciiCase_congr h rule.name

/-- A rule is found under its name after its registration exactly if the registry has no other
    spelling of the name. -/
theorem get?_register_iff (registry : Registry) (rule : Rule) :
    (registry.register rule).get? rule.name = some rule ↔
      ∀ other ∈ registry.rules, sameIgnoringAsciiCase other.name rule.name = true →
        other.name = rule.name := by
  rw [get?, register, List.find?_append, List.find?_singleton, if_pos (sameIgnoringAsciiCase_refl _)]
  cases hfind : (registry.rules.filter (·.name ≠ rule.name)).find?
      fun other => sameIgnoringAsciiCase other.name rule.name with
  | none =>
    refine iff_of_true rfl ?_
    intro other hmem hsame
    by_contra hname
    exact List.find?_eq_none.mp hfind other (List.mem_filter.mpr ⟨hmem, by simpa using hname⟩) hsame
  | some first =>
    obtain ⟨hmem, hname⟩ := List.mem_filter.mp (List.mem_of_find?_eq_some hfind)
    have hsame : sameIgnoringAsciiCase first.name rule.name = true := by
      simpa using List.find?_some hfind
    refine iff_of_false ?_ ?_
    · intro hfirst
      rw [Option.some_or, Option.some_inj] at hfirst
      simp [hfirst] at hname
    · intro hall
      simp [hall first hmem hsame] at hname

/-- A registration does not change what is found under other names. -/
theorem get?_register_of_ne (registry : Registry) {rule : Rule} {name : String}
    (h : sameIgnoringAsciiCase rule.name name = false) :
    (registry.register rule).get? name = registry.get? name := by
  rw [get?, register, get?, List.find?_append, List.find?_singleton, h, if_neg Bool.false_ne_true,
    Option.or_none, List.find?_filter]
  congr 1
  funext other
  by_cases hname : other.name = rule.name
  · simp [hname, h]
  · simp [hname]

/-! ### Registries as maps -/

theorem lastNamed?_concat (history : List Rule) (rule : Rule) (name : String) :
    lastNamed? (history ++ [rule]) name =
      if sameIgnoringAsciiCase rule.name name then some rule else lastNamed? history name := by
  rw [lastNamed?, List.reverse_concat, List.find?_cons]
  cases sameIgnoringAsciiCase rule.name name <;> rfl

theorem mem_names_of_mem {history : List Rule} {rule : Rule} (h : rule ∈ (ofHistory history).rules) :
    rule.name ∈ history.map (·.name) := by
  have hname : rule.name ∈ (ofHistory history).names := List.mem_map_of_mem h
  rwa [names_ofHistory, List.mem_dedup] at hname

/-- With one spelling for each name the last rule that was registered under a name is found. -/
theorem get?_ofHistory {history : List Rule} (h : SpelledOneWay (history.map (·.name)))
    (name : String) : (ofHistory history).get? name = lastNamed? history name := by
  induction history using List.reverseRecOn with
  | nil => rfl
  | append_singleton history rule ih =>
    rw [List.map_append, List.map_singleton] at h
    rw [ofHistory_concat, lastNamed?_concat]
    cases hsame : sameIgnoringAsciiCase rule.name name with
    | false =>
      rw [get?_register_of_ne _ hsame, ih (h.mono (List.subset_append_left _ _))]
      rfl
    | true =>
      rw [← get?_congr _ hsame, if_pos rfl, get?_register_iff]
      intro other hmem hother
      exact h _ (List.mem_append_left _ (mem_names_of_mem hmem)) _ (by simp) hother

/-- When every rule of a history was found right after its registration, each name has one
    spelling: an earlier rule with another spelling would have been found first. -/
theorem spelledOneWay_of_found {history : List Rule}
    (h : ∀ done rule, done ++ [rule] <+: history →
      (ofHistory (done ++ [rule])).get? rule.name = some rule) :
    SpelledOneWay (history.map (·.name)) := by
  induction history using List.reverseRecOn with
  | nil => exact fun a ha => absurd ha List.not_mem_nil
  | append_singleton history rule ih =>
    have hbefore := ih fun done other hdone => h done other (hdone.trans (List.prefix_append _ _))
    have hlast : ∀ a ∈ history.map (·.name), sameIgnoringAsciiCase a rule.name = true →
        a = rule.name := by
      intro a ha hsame
      have hget := h history rule (List.prefix_refl _)
      rw [ofHistory_concat, get?_register_iff] at hget
      rw [← List.mem_dedup, ← names_ofHistory] at ha
      obtain ⟨other, hmem, rfl⟩ := List.mem_map.mp ha
      exact hget other hmem hsame
    intro a ha b hb hsame
    simp only [List.map_append, List.map_singleton, List.mem_append, List.mem_singleton] at ha hb
    rcases ha with ha | rfl <;> rcases hb with hb | rfl
    · exact hbefore a ha b hb hsame
    · exact hlast a ha hsame
    · exact (hlast b hb (by rwa [sameIgnoringAsciiCase_comm])).symm
    · rfl

/-- A registry as a map from names, whether it starts empty or with the built-in rule. Its names are
    always different, in the order of their last registrations. But that each rule is found right after
    its registration, that at each time the last rule registered under a name is found, and that no two
    registered rules answer to one name: each of these holds exactly if every name has one spelling. -/
theorem registered_names_tfae (history : List Rule) :
    (∀ settings programs, history.foldl register (builtin settings programs) =
      ofHistory (ParameterDocumentation.rule (settings.dynamicParameters.evaluator programs) ::
        history)) ∧
    (ofHistory history).names = (history.map (·.name)).dedup ∧
    List.TFAE [
      SpelledOneWay (history.map (·.name)),
      ∀ done rule, done ++ [rule] <+: history →
        (ofHistory (done ++ [rule])).get? rule.name = some rule,
      ∀ done, done <+: history → ∀ name, (ofHistory done).get? name = lastNamed? done name,
      (ofHistory history).names.Pairwise fun a b => sameIgnoringAsciiCase a b = false] := by
  refine ⟨fun _ _ => rfl, names_ofHistory history, ?_⟩
  tfae_have 1 → 3 := by
    intro h done hdone name
    exact get?_ofHistory (h.mono (hdone.map _).subset) name
  tfae_have 3 → 2 := by
    intro h done rule hdone
    rw [h _ hdone, lastNamed?_concat, if_pos (sameIgnoringAsciiCase_refl _)]
  tfae_have 2 → 1 := spelledOneWay_of_found
  tfae_have 1 ↔ 4 := by
    rw [names_ofHistory, ← spelledOneWay_iff_pairwise (List.nodup_dedup _)]
    simp only [SpelledOneWay, List.mem_dedup]
  tfae_finish

/-- Two spellings of one name are both registered, and the one that came first is found under
    either. -/
theorem second_spelling_is_not_found :
    let history := [Rule.constant "Rule" (.ok []), .constant "RULE" (.ok [])]
    (ofHistory history).names = ["Rule", "RULE"] ∧
    sameIgnoringAsciiCase "Rule" "RULE" = true ∧
    ((ofHistory history).get? "RULE").map (·.name) = some "Rule" := by
  intro history
  refine ⟨?_, by decide, by decide⟩
  rw [names_ofHistory]
  decide

end Registry

end HelpAudit
