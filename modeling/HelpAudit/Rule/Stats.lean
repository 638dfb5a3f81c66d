import HelpAudit.Text.Fixed

/-! Statistics of rules: how often a rule ran, what it found and how long it took. All counts are
    words of 64 bits. -/

namespace HelpAudit

/-- The counts of one rule; times are in microseconds. -/
structure RuleStats where
  applications : UInt64 := 0
  violations : UInt64 := 0
  totalTime : UInt64 := 0
  deriving DecidableEq

namespace RuleStats

/-- After one more run. -/
def update (stats : RuleStats) (violations time : UInt64) : RuleStats where
  applications := stats.applications + 1
  violations := stats.violations + violations
  totalTime := stats.totalTime + time

/-- A total for each run, zero without any. -/
def perApplication (stats : RuleStats) (total : UInt64) : Float :=
  if stats.applications = 0 then 0 else total.toFloat / stats.applications.toFloat

/-- The average time of a run. -/
def averageTime (stats : RuleStats) : Float := stats.perApplication stats.totalTime

/-- The average number of findings of a run. -/
def violationRate (stats : RuleStats) : Float := stats.perApplication stats.violations

end RuleStats

/-- Statistics by rule name, each name once. -/
abbrev StatsTable := List (String × RuleStats)

namespace StatsTable

/-- After one more run of a rule. -/
def record (rule : String) (violations time : UInt64) : StatsTable → StatsTable
  | [] => [(rule, RuleStats.update {} violations time)]
  | (name, stats) :: table =>
    if name = rule then (name, stats.update violations time) :: table
    else (name, stats) :: record rule violations time table

/-- The sum of a count over all rules. -/
def total (count : RuleStats → UInt64) (table : StatsTable) : UInt64 :=
  table.foldl (fun sum entry => sum + count entry.2) 0

/-- The mean of the rules' average times, zero without any. -/
def averageTime (table : StatsTable) : Float :=
  if table.isEmpty then 0
  else table.foldl (fun sum entry => sum + entry.2.averageTime) 0 / Float.ofNat table.length

end StatsTable

/-- The totals over all rules. -/
structure RulesSummary where
  totalRules : Nat
  enabledRules : Nat
  applications : UInt64
  violations : UInt64
  averageTime : Float

/-- The totals as lines of text. -/
def RulesSummary.display (summary : RulesSummary) : String :=
  let average := Text.twoPlaces summary.averageTime.toBits
  "Rules Summary:\n" ++
    s!"  Total rules: {summary.totalRules}\n" ++
    s!"  Enabled rules: {summary.enabledRules}\n" ++
    s!"  Total applications: {summary.applications.toNat}\n" ++
    s!"  Total violations: {summary.violations.toNat}\n" ++
    s!"  Avg execution time: {average}μs\n"

end HelpAudit
