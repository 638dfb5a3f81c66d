import HelpAudit.Json

/-! JSON values with the members of every object in the order of their keys. -/

namespace HelpAudit.Json

mutual

/-- The value with sorted members. -/
def sorted : Json → Json
  | .arr items => .arr (sortedItems items)
  | .obj members => .obj ((sortedMembers members).mergeSort fun a b => a.1 ≤ b.1)
  | .null => .null
  | .bool value => .bool value
  | .nat value => .nat value
  | .decimal value => .decimal value
  | .str value => .str value
  | .garbled => .garbled

def sortedItems : List Json → List Json
  | [] => []
  | item :: items => item.sorted :: sortedItems items

def sortedMembers : List (String × Json) → List (String × Json)
  | [] => []
  | (key, value) :: members => (key, value.sorted) :: sortedMembers members

end

end HelpAudit.Json
