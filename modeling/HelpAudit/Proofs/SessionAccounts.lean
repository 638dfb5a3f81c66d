import Mathlib.Algebra.Order.BigOperators.Group.List
import Mathlib.Algebra.Order.Group.Nat
import Mathlib.Data.List.DropRight
import Mathlib.Data.UInt
import HelpAudit.Engine

/-! What the statistics say after a whole session. A session is a list of analyses and clearings; the
    account to compare with is the list of executions that were completed since the last clearing.
    Recording an execution changes one entry, by sums, so the entries depend on the executions and
    not on their order. -/

namespace HelpAudit

/-- A completed run of a rule: how much it found and how long it took. -/
structure Execution where
  rule : String
  found : Nat
  time : UInt64

/-- The executions of one rule. -/
def executionsOf (name : String) (executions : List Execution) : List Execution :=
  executions.filter (·.rule = name)

/-- The number of findings of executions. -/
def foundIn (executions : List Execution) : Nat := (executions.map (·.found)).sum

/-! ### The rules that run -/

/-- The rules that an analysis runs, in the order of the registry. -/
def enabledRules (config : Config) (registry : Registry) : List Rule :=
  registry.rules.filter (config.isEnabled ·.name)

/-- The outcome of rules: all that they find in their order, or the failure of the first that fails. -/
def outcomeOf (tree : ScriptBlock) (file : Option String) (rules : List Rule) :
    Except Failure (List Diagnostic) :=
  (rules.mapM fun rule : Rule => (rule.run tree file).outcome).map List.flatten

/-- The rules that are completed: those before the first that fails. -/
def completedRules (tree : ScriptBlock) (file : Option String) (rules : List Rule) : List Rule :=
  rules.takeWhile fun rule => (rule.run tree file).outcome.isOk

/-- The rules that are started: those that are completed and the one that fails. -/
def startedRules (tree : ScriptBlock) (file : Option String) (rules : List Rule) : List Rule :=
  rules.take ((completedRules tree file rules).length + 1)

/-- The execution of a rule that completes. -/
def Rule.execution (clock : String → UInt64) (tree : ScriptBlock) (file : Option String)
    (rule : Rule) : Execution :=
  ⟨rule.name, ((rule.run tree file).outcome.toOption.getD []).length, clock rule.name⟩

/-- The executions that an analysis of a tree completes. -/
def executionsOn (clock : String → UInt64) (tree : ScriptBlock) (file : Option String)
    (rules : List Rule) : List Execution :=
  (completedRules tree file rules).map (Rule.execution clock tree file)

/-- The statistics after executions were recorded one after another. -/
def StatsTable.recordAll (table : StatsTable) (executions : List Execution) : StatsTable :=
  executions.foldl (fun table e => table.record e.rule (.ofNat e.found) e.time) table

section Rules

variable {tree : ScriptBlock} {file : Option String} {rule : Rule} {found : List Diagnostic}

theorem outcomeOf_cons_ok (h : (rule.run tree file).outcome = .ok found) (rules : List Rule) :
    outcomeOf tree file (rule :: rules) = (outcomeOf tree file rules).map (found ++ ·) := by
  rw [outcomeOf, outcomeOf, List.mapM_cons, h]
  cases rules.mapM fun rule : Rule => (rule.run tree file).outcome <;> rfl

theorem completedRules_cons_ok (h : (rule.run tree file).outcome = .ok found) (rules : List Rule) :
    completedRules tree file (rule :: rules) = rule :: completedRules tree file rules := by
  rw [completedRules, completedRules, List.takeWhile_cons_of_pos (by rw [h]; rfl)]

theorem startedRules_cons_ok (h : (rule.run tree file).outcome = .ok found) (rules : List Rule) :
    startedRules tree file (rule :: rules) = rule :: startedRules tree file rules := by
  rw [startedRules, startedRules, completedRules_cons_ok h]
  rfl

theorem executionsOn_cons_ok (h : (rule.run tree file).outcome = .ok found)
    (clock : String → UInt64) (rules : List Rule) :
    executionsOn clock tree file (rule :: rules) =
      ⟨rule.name, found.length, clock rule.name⟩ :: executionsOn clock tree file rules := by
  rw [executionsOn, executionsOn, completedRules_cons_ok h, List.map_cons, Rule.execution, h]
  rfl

end Rules

/-- A run is decided by the enabled rules: its outcome is theirs, the scripts are those of the rules
    that are started, and the executions of the rules that are completed are recorded. -/
theorem runRules_eq (config : Config) (clock : String → UInt64) (tree : ScriptBlock)
    (file : Option String) : ∀ (rules : List Rule) (stats : StatsTable),
    runRules config clock tree file stats rules =
      ⟨outcomeOf tree file (rules.filter (config.isEnabled ·.name)),
        (startedRules tree file (rules.filter (config.isEnabled ·.name))).flatMap
          fun rule => (rule.run tree file).calls,
        stats.recordAll (executionsOn clock tree file (rules.filter (config.isEnabled ·.name)))⟩
  | [], stats => rfl
  | rule :: rules, stats => by
    rw [runRules]
    cases hon : config.isEnabled rule.name with
    | false =>
      rw [List.filter_cons_of_neg (by simp [hon])]
      exact runRules_eq config clock tree file rules stats
    | true =>
      rw [List.filter_cons_of_pos (by simp [hon]), if_pos rfl]
      cases hrun : (rule.run tree file).outcome with
      | error failure =>
        simp [hrun, outcomeOf, startedRules, executionsOn, completedRules, StatsTable.recordAll,
          Except.isOk, Except.toBool, Except.map, bind, Except.bind]
      | ok found =>
        simp only [runRules_eq config clock tree file rules]
        rw [outcomeOf_cons_ok hrun, startedRules_cons_ok hrun, executionsOn_cons_ok hrun,
          List.flatMap_cons, hrun]
        rfl

/-- An engine with one rule ends as the rule does, and without findings when the rule is off. -/
theorem Engine.analyze_single {engine : Engine} {rule : Rule} (h : engine.registry.rules = [rule])
    (clock : String → UInt64) (tree : ScriptBlock) (file : Option String) :
    (engine.analyze clock (some tree) file).outcome =
      if engine.config.isEnabled rule.name then (rule.run tree file).outcome else .ok [] := by
  rw [Engine.analyze, h, runRules_eq]
  cases hon : engine.config.isEnabled rule.name with
  | false => simp [hon, outcomeOf, pure, Except.pure, Except.map]
  | true =>
    cases hrun : (rule.run tree file).outcome with
    | error failure => simp [hon, hrun, outcomeOf, bind, Except.bind, Except.map]
    | ok found => simp [hon, hrun, outcomeOf, bind, Except.bind, pure, Except.pure, Except.map]

/-! ### Sessions -/

namespace Engine

/-- What an engine is asked to do in a session. -/
inductive Request where
  | analyze (clock : String → UInt64) (tree : Option ScriptBlock) (file : Option String)
  | clear

def Request.isAnalysis : Request → Bool
  | .analyze .. => true
  | .clear => false

/-- The engine after a request. -/
def after (engine : Engine) : Request → Engine
  | .analyze clock tree file => engine.withStats (engine.analyze clock tree file).stats
  | .clear => engine.clearStats

/-- The engine after a session. -/
def afterAll (engine : Engine) (requests : List Request) : Engine := requests.foldl after engine

/-- The executions that a request completes. -/
def executions (engine : Engine) : Request → List Execution
  | .analyze clock (some tree) file =>
    executionsOn clock tree file (enabledRules engine.config engine.registry)
  | .analyze _ none _ => []
  | .clear => []

/-- The executions that a session completes after its last clearing. -/
def executionsSince (engine : Engine) (requests : List Request) : List Execution :=
  (requests.rtakeWhile Request.isAnalysis).flatMap engine.executions

theorem afterAll_concat (engine : Engine) (requests : List Request) (request : Request) :
    engine.afterAll (requests ++ [request]) = (engine.afterAll requests).after request := by
  rw [afterAll, List.foldl_append]
  rfl

theorem executionsSince_clear (engine : Engine) (requests : List Request) :
    engine.executionsSince (requests ++ [.clear]) = [] := by
  rw [executionsSince, List.rtakeWhile_concat_neg _ _ _ Bool.false_ne_true]
  rfl

theorem executionsSince_analyze (engine : Engine) (requests : List Request)
    (clock : String → UInt64) (tree : Option ScriptBlock) (file : Option String) :
    engine.executionsSince (requests ++ [.analyze clock tree file]) =
      engine.executionsSince requests ++ engine.executions (.analyze clock tree file) := by
  rw [executionsSince, List.rtakeWhile_concat_pos _ _ _ rfl, List.flatMap_append,
    List.flatMap_singleton]
  rfl

/-- One analysis records what it completes. -/
theorem analyze_stats (engine : Engine) (clock : String → UInt64) (tree : Option ScriptBlock)
    (file : Option String) :
    (engine.analyze clock tree file).stats =
      engine.stats.recordAll (engine.executions (.analyze clock tree file)) := by
  cases tree with
  | none => rfl
  | some tree => exact congrArg Analysis.stats (runRules_eq _ clock tree file _ _)

/-- After a session the statistics are those of the executions since the last clearing; the
    configuration and the rules stay. -/
theorem afterAll_eq {engine : Engine} (hnew : engine.stats = []) (requests : List Request) :
    engine.afterAll requests =
      engine.withStats (StatsTable.recordAll [] (engine.executionsSince requests)) := by
  induction requests using List.reverseRecOn with
  | nil =>
    cases engine
    subst hnew
    rfl
  | append_singleton requests request ih =>
    rw [afterAll_concat, ih]
    cases request with
    | clear => rw [executionsSince_clear]; rfl
    | analyze clock tree file =>
      rw [after, analyze_stats, executionsSince_analyze, StatsTable.recordAll, StatsTable.recordAll,
        StatsTable.recordAll, List.foldl_append]
      cases tree <;> rfl

end Engine

/-! ### Entries -/

/-- The counts of executions of one rule. -/
def RuleStats.of (executions : List Execution) : RuleStats where
  applications := .ofNat executions.length
  violations := .ofNat (foundIn executions)
  totalTime := (executions.map (·.time)).sum

theorem RuleStats.of_concat (executions : List Execution) (e : Execution) :
    RuleStats.of (executions ++ [e]) = (RuleStats.of executions).update (.ofNat e.found) e.time := by
  simp [RuleStats.of, RuleStats.update, foundIn, UInt64.ofNat_add]

theorem RuleStats.of_perm {executions others : List Execution} (h : executions.Perm others) :
    RuleStats.of executions = RuleStats.of others := by
  rw [RuleStats.of, RuleStats.of, foundIn, foundIn, h.length_eq, (h.map _).sum_eq, (h.map _).sum_eq]

namespace StatsTable

theorem recordAll_concat (table : StatsTable) (executions : List Execution) (e : Execution) :
    table.recordAll (executions ++ [e]) =
      (table.recordAll executions).record e.rule (.ofNat e.found) e.time := by
  rw [recordAll, List.foldl_append]
  rfl

theorem lookup_cons (name other : String) (stats : RuleStats) (table : StatsTable) :
    List.lookup name ((other, stats) :: table) =
      if name = other then some stats else table.lookup name := by
  by_cases h : name = other
  · simp [h]
  · rw [List.lookup_cons, beq_false_of_ne h, if_neg h]

/-- Recording changes the entry of the rule and no other. -/
theorem lookup_record (rule : String) (violations time : UInt64) (name : String) :
    ∀ table : StatsTable, (table.record rule violations time).lookup name =
      if name = rule then some (((table.lookup rule).getD {}).update violations time)
      else table.lookup name
  | [] => by
    by_cases h : name = rule <;> simp [record, lookup_cons, h]
  | (other, stats) :: table => by
    have ih := lookup_record rule violations time name table
    by_cases hother : other = rule <;> by_cases hname : name = rule <;>
      by_cases hhead : name = other <;> simp_all [record, lookup_cons]

theorem map_fst_record (rule : String) (violations time : UInt64) :
    ∀ table : StatsTable, (table.record rule violations time).map Prod.fst =
      if rule ∈ table.map Prod.fst then table.map Prod.fst else table.map Prod.fst ++ [rule]
  | [] => rfl
  | (other, stats) :: table => by
    have ih := map_fst_record rule violations time table
    by_cases hother : other = rule
    · simp [record, hother]
    · by_cases hlater : rule ∈ table.map Prod.fst <;>
        simp_all [record, Ne.symm hother]

theorem nodup_recordAll (executions : List Execution) :
    ((recordAll [] executions).map Prod.fst).Nodup := by
  induction executions using List.reverseRecOn with
  | nil => exact List.nodup_nil
  | append_singleton executions e ih =>
    rw [recordAll_concat, map_fst_record]
    split
    · exact ih
    · rename_i hnew
      exact List.nodup_append.mpr ⟨ih, List.nodup_singleton _, fun a ha b hb => by
        rw [List.mem_singleton.mp hb]
        exact fun h => hnew (h ▸ ha)⟩

/-- The entry of a rule counts its executions. -/
theorem lookup_recordAll (executions : List Execution) (name : String) :
    (recordAll [] executions).lookup name =
      if executionsOf name executions = [] then none
      else some (.of (executionsOf name executions)) := by
  induction executions using List.reverseRecOn with
  | nil => rfl
  | append_singleton executions e ih =>
    have hgetD : ((recordAll [] executions).lookup name).getD {} =
        .of (executionsOf name executions) := by
      rw [ih]
      split
      · rename_i h
        rw [h]
        rfl
      · rfl
    rw [recordAll_concat, lookup_record]
    by_cases h : e.rule = name
    · have hown : executionsOf name (executions ++ [e]) = executionsOf name executions ++ [e] := by
        simp [executionsOf, h]
      rw [if_pos h.symm, h, hgetD, hown, if_neg (by simp), RuleStats.of_concat]
    · have hown : executionsOf name (executions ++ [e]) = executionsOf name executions := by
        simp [executionsOf, h]
      rw [if_neg (Ne.symm h), ih, hown]

/-! ### Totals -/

/-- The sum of a count over all rules, as a number that does not wrap. -/
def sum (count : RuleStats → UInt64) (table : StatsTable) : Nat :=
  (table.map fun entry => (count entry.2).toNat).sum

theorem sum_cons (count : RuleStats → UInt64) (entry : String × RuleStats) (table : StatsTable) :
    sum count (entry :: table) = (count entry.2).toNat + table.sum count :=
  rfl

/-- Sums that stay below the limit are sums of natural numbers. -/
theorem toNat_foldl (count : RuleStats → UInt64) : ∀ (table : StatsTable) (start : UInt64),
    start.toNat + table.sum count < 2 ^ 64 →
    (table.foldl (fun sum entry => sum + count entry.2) start).toNat =
      start.toNat + table.sum count
  | [], _, _ => rfl
  | entry :: table, start, h => by
    rw [sum_cons] at h ⊢
    have hadd : (start + count entry.2).toNat = start.toNat + (count entry.2).toNat := by
      rw [UInt64.toNat_add, Nat.mod_eq_of_lt (by omega)]
    rw [List.foldl_cons, toNat_foldl count table _ (by rw [hadd]; omega), hadd]
    omega

theorem toNat_total {count : RuleStats → UInt64} {table : StatsTable}
    (h : table.sum count < 2 ^ 64) : (table.total count).toNat = table.sum count := by
  rw [total, toNat_foldl count table 0 (by simpa using h)]
  exact Nat.zero_add _

/-- Recording raises a sum by what it adds to the count of one rule. -/
theorem sum_record {count : RuleStats → UInt64} {violations time amount : UInt64}
    (hnone : count {} = 0) (hupdate : ∀ stats, count (stats.update violations time) = count stats + amount)
    (rule : String) : ∀ table : StatsTable, table.sum count + amount.toNat < 2 ^ 64 →
    (table.record rule violations time).sum count = table.sum count + amount.toNat
  | [], _ => by simp [record, sum, hupdate, hnone]
  | (other, stats) :: table, h => by
    simp only [sum_cons] at h ⊢
    by_cases hother : other = rule
    · rw [record, if_pos hother, sum_cons, hupdate, UInt64.toNat_add,
        Nat.mod_eq_of_lt (by omega)]
      omega
    · rw [record, if_neg hother, sum_cons, sum_record hnone hupdate rule table (by omega),
        Nat.add_assoc]

theorem sum_recordAll {count : RuleStats → UInt64} (amount : Execution → Nat)
    (hnone : count {} = 0) (hupdate : ∀ stats e, count (stats.update (.ofNat e.found) e.time) =
      count stats + .ofNat (amount e))
    (executions : List Execution) (h : (executions.map amount).sum < 2 ^ 64) :
    (recordAll [] executions).sum count = (executions.map amount).sum := by
  induction executions using List.reverseRecOn with
  | nil => rfl
  | append_singleton executions e ih =>
    simp only [List.map_append, List.sum_append, List.map_singleton, List.sum_singleton] at h ⊢
    have hamount : (UInt64.ofNat (amount e)).toNat = amount e :=
      UInt64.toNat_ofNat_of_lt' (by change _ < 2 ^ 64; omega)
    have hbefore := ih (by omega)
    rw [recordAll_concat, sum_record hnone (fun stats => hupdate stats e) _ _
      (by rw [hbefore, hamount]; exact h), hbefore, hamount]

theorem lookup_recordAll_perm {executions others : List Execution} (h : executions.Perm others)
    (name : String) : (recordAll [] executions).lookup name = (recordAll [] others).lookup name := by
  have hown : (executionsOf name executions).Perm (executionsOf name others) := h.filter _
  have hnil : executionsOf name executions = [] ↔ executionsOf name others = [] :=
    ⟨fun hnil => List.perm_nil.mp (hnil ▸ hown.symm), fun hnil => List.perm_nil.mp (hnil ▸ hown)⟩
  rw [lookup_recordAll, lookup_recordAll, RuleStats.of_perm hown]
  exact if_congr hnil rfl rfl

/-- Statistics agree with a list of executions: there is one entry for each rule with an execution,
    and it counts the rule's executions and their findings. -/
structure Accounts (table : StatsTable) (executions : List Execution) : Prop where
  names_nodup : (table.map Prod.fst).Nodup
  entry_iff : ∀ name, (table.lookup name).isSome ↔ ∃ e ∈ executions, e.rule = name
  applications : ∀ name stats, table.lookup name = some stats →
    stats.applications.toNat = (executionsOf name executions).length
  violations : ∀ name stats, table.lookup name = some stats →
    stats.violations.toNat = foundIn (executionsOf name executions)

theorem foundIn_executionsOf_le (name : String) (executions : List Execution) :
    foundIn (executionsOf name executions) ≤ foundIn executions :=
  (List.filter_sublist.map _).sum_le_sum fun _ _ => Nat.zero_le _

theorem recordAll_accounts {executions : List Execution} (hruns : executions.length < 2 ^ 64)
    (hfound : foundIn executions < 2 ^ 64) : (recordAll [] executions).Accounts executions := by
  have hentry : ∀ name stats, (recordAll [] executions).lookup name = some stats →
      stats = .of (executionsOf name executions) := by
    intro name stats h
    rw [lookup_recordAll] at h
    split at h
    · cases h
    · exact (Option.some.inj h).symm
  refine ⟨nodup_recordAll executions, fun name => ?_, fun name stats h => ?_,
    fun name stats h => ?_⟩
  · have hnil : executionsOf name executions = [] ↔ ¬ ∃ e ∈ executions, e.rule = name := by
      simp [executionsOf, List.filter_eq_nil_iff]
    rw [lookup_recordAll]
    split <;> simp_all
  · rw [hentry name stats h]
    exact UInt64.toNat_ofNat_of_lt'
      (Nat.lt_of_le_of_lt (List.length_filter_le _ _) hruns)
  · rw [hentry name stats h]
    exact UInt64.toNat_ofNat_of_lt'
      (Nat.lt_of_le_of_lt (foundIn_executionsOf_le name executions) hfound)

end StatsTable

/-! ### The account of a session -/

/-- Accounts of whole sessions of an engine that starts without statistics. An analysis of an absent
    tree fails and leaves the statistics. Another one runs the enabled rules in the order of the
    registry until one fails, whatever the statistics are. After the session the statistics account
    for the executions since the last clearing, the summary gives their sums, and recording the
    executions in another order gives the same entries. -/
theorem session_accounts (engine : Engine) (hnew : engine.stats = [])
    (requests : List Engine.Request)
    (hruns : (engine.executionsSince requests).length < 2 ^ 64)
    (hfound : foundIn (engine.executionsSince requests) < 2 ^ 64) :
    let rules := enabledRules engine.config engine.registry
    let done := engine.afterAll requests
    (∀ stats clock file, (engine.withStats stats).analyze clock none file =
      ⟨.error (.reported .absentTree), [], stats⟩) ∧
    (∀ stats clock tree file,
      ((engine.withStats stats).analyze clock (some tree) file).outcome =
        outcomeOf tree file rules ∧
      ((engine.withStats stats).analyze clock (some tree) file).calls =
        (startedRules tree file rules).flatMap fun rule => (rule.run tree file).calls) ∧
    done.stats.Accounts (engine.executionsSince requests) ∧
    done.summary.applications.toNat = done.stats.sum (·.applications) ∧
    done.summary.violations.toNat = done.stats.sum (·.violations) ∧
    ∀ executions : List Execution, executions.Perm (engine.executionsSince requests) →
      ∀ name, (StatsTable.recordAll [] executions).lookup name = done.stats.lookup name := by
  intro rules done
  have hstats : done.stats = StatsTable.recordAll [] (engine.executionsSince requests) := by
    exact congrArg Engine.stats (Engine.afterAll_eq hnew requests)
  -- both sums come from one lemma, with 1 and with the findings as the amount of an execution
  have happlications : done.stats.sum (·.applications) = (engine.executionsSince requests).length := by
    rw [hstats, StatsTable.sum_recordAll (fun _ => 1) rfl (fun _ _ => rfl) _
      (by simpa using hruns)]
    simp
  have hviolations : done.stats.sum (·.violations) = foundIn (engine.executionsSince requests) := by
    rw [hstats, StatsTable.sum_recordAll (·.found) rfl (fun _ _ => rfl) _ hfound]
    rfl
  refine ⟨fun _ _ _ => rfl, fun stats clock tree file => ?_, ?_, ?_, ?_, ?_⟩
  · have hrun := runRules_eq engine.config clock tree file engine.registry.rules stats
    exact ⟨congrArg Analysis.outcome hrun, congrArg Analysis.calls hrun⟩
  · rw [hstats]
    exact StatsTable.recordAll_accounts hruns hfound
  · exact StatsTable.toNat_total (by rw [happlications]; exact hruns)
  · exact StatsTable.toNat_total (by rw [hviolations]; exact hfound)
  · intro executions hperm name
    rw [hstats]
    exact StatsTable.lookup_recordAll_perm hperm name

/-- A rule with the same outcome on every tree. -/
def Rule.constant (name : String) (outcome : Except Failure (List Diagnostic)) : Rule where
  info := { ParameterDocumentation.info with name := name }
  run _ _ := ⟨outcome, []⟩

/-- The second of three rules fails. Of two analyses after the clearing, the first rule's executions
    count and the others' do not; an absent tree changes nothing. -/
theorem session_accounts_aborted :
    let extent : Extent := ⟨none, 1, 1, 1, 1, 0, 0, ""⟩
    let tree : ScriptBlock := ⟨extent, none, []⟩
    let engine : Engine := { config := {}, registry := ⟨[
      .constant "Finds" (.ok [⟨"a", extent, "Finds", .warning, none, none, none, []⟩]),
      .constant "Fails" (.error (.reported .invalidTree)), .constant "Later" (.ok [])]⟩ }
    let requests : List Engine.Request := [.analyze (fun _ => 3) tree none, .clear,
      .analyze (fun _ => 5) tree none, .analyze (fun _ => 1) none none,
      .analyze (fun _ => 7) tree none]
    let done := engine.afterAll requests
    engine.executionsSince requests = [⟨"Finds", 1, 5⟩, ⟨"Finds", 1, 7⟩] ∧
    done.stats.Accounts [⟨"Finds", 1, 5⟩, ⟨"Finds", 1, 7⟩] ∧
    done.summary.applications.toNat = 2 ∧
    ((done.analyze (fun _ => 1) (some tree) none).outcome =
      .error (.reported .invalidTree)) := by
  intro extent tree engine requests done
  have hexecutions : engine.executionsSince requests = [⟨"Finds", 1, 5⟩, ⟨"Finds", 1, 7⟩] := rfl
  obtain ⟨-, hanalyze, haccounts, happlications, -, -⟩ := session_accounts engine rfl requests
    (by rw [hexecutions]; decide) (by rw [hexecutions]; decide)
  exact ⟨hexecutions, hexecutions ▸ haccounts, happlications.trans rfl,
    (hanalyze done.stats (fun _ => 1) tree none).1⟩

end HelpAudit
