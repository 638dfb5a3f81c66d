import HelpAudit.Text.UpperTable

/-! Upper-casing by characters. One character may become several (`ß` becomes `SS`); the result
    does not depend on the characters around. Names that differ only in case have the same
    upper-case form, which is how parameters are identified. -/

namespace HelpAudit.Text

/-- Whether the run holds the code point `n`. -/
def UpperRun.covers (run : UpperRun) (n : Nat) : Bool :=
  run.first ≤ n && n ≤ run.last && (n - run.first) % run.step == 0

/-- The upper-case form of one character. -/
def upperChar (c : Char) : List Char :=
  if c.toNat < 0x80 then [c.toUpper]
  else match upperRuns.find? (·.covers c.toNat) with
    | some run => [Char.ofNat (run.target + (c.toNat - run.first))]
    | none => match upperExpansions.find? (·.1 == c.toNat) with
      | some expansion => expansion.2.map Char.ofNat
      | none => [c]

/-- The upper-case form of a text. -/
def upperChars (cs : List Char) : List Char := cs.flatMap upperChar

/-- The upper-case form of a string. -/
def upper (s : String) : String := .ofList (upperChars s.toList)

/-- Strings that agree up to the case of ASCII letters. -/
def sameIgnoringAsciiCase (a b : String) : Bool :=
  a.toList.map Char.toLower == b.toList.map Char.toLower

end HelpAudit.Text
