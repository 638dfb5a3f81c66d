import HelpAudit.Text.WordTable

/-! Word characters, those that may occur in a variable's name. -/

namespace HelpAudit.Text

/-- The word characters of ASCII: letters, digits and the underscore. -/
def isAsciiWord (c : Char) : Bool := c.isAlphanum || c == '_'

/-- Letters, combining marks, decimal digits, connecting punctuation and join controls. -/
def isWord (c : Char) : Bool := isAsciiWord c || (0x80 ≤ c.toNat && wordTable.contains c)

end HelpAudit.Text
