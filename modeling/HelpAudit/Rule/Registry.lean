import HelpAudit.Rule
import HelpAudit.Text.Quoted
import HelpAudit.Text.UpperCase

/-! The registry: the rules that can be run, in the order in which they run. -/

namespace HelpAudit

/-- Rules in the order of their registration, each name once. -/
structure Registry where
  rules : List Rule := []

namespace Registry

/-- Adds a rule at the end, in the place of one with exactly its name. -/
def register (registry : Registry) (rule : Rule) : Registry :=
  ⟨registry.rules.filter (·.name ≠ rule.name) ++ [rule]⟩

/-- The first rule with a name, whatever the case of its ASCII letters. -/
def get? (registry : Registry) (name : String) : Option Rule :=
  registry.rules.find? fun rule => Text.sameIgnoringAsciiCase rule.name name

/-- The names of the rules in order. -/
def names (registry : Registry) : List String := registry.rules.map (·.name)

/-- The registry as text, with the names quoted. -/
def display (registry : Registry) : String :=
  let quoted := ", ".intercalate (registry.names.map Text.quoted)
  "RuleRegistry \x7b rules: [" ++ quoted ++ "] \x7d"

end Registry

end HelpAudit
