/-! Lists of named values, in the order in which the names came up. -/

namespace HelpAudit.Entries

variable {α : Type}

/-- The entries with one of them set: in place, or at the end when the name is new. -/
def set (name : String) (value : α) : List (String × α) → List (String × α)
  | [] => [(name, value)]
  | entry :: entries =>
    if entry.1 = name then (name, value) :: entries else entry :: set name value entries

end HelpAudit.Entries
