/-! Sets of characters given as ranges of code points, the form in which character properties are
    tabulated. -/

namespace HelpAudit.Text

/-- Closed ranges of code points. -/
abbrev CharTable := List (Nat × Nat)

/-- A character belongs to a table when one of its ranges holds the character's code point. -/
def CharTable.contains (table : CharTable) (c : Char) : Bool :=
  table.any fun range => range.1 ≤ c.toNat && c.toNat ≤ range.2

end HelpAudit.Text
