import HelpAudit.Json

/-! JSON texts of values: the compact one without any blanks, and the one indented by two spaces. -/

namespace HelpAudit.Json

/-- The lower-case hexadecimal digit of `n`, below 16. -/
def hexDigit (n : Nat) : Char := Nat.digitChar (n % 16)

/-- One character inside a JSON string. -/
def escapedChar (c : Char) : List Char :=
  if c = '\x22' then ['\\', '\x22']
  else if c = '\\' then ['\\', '\\']
  else if c = '\n' then ['\\', 'n']
  else if c = '\r' then ['\\', 'r']
  else if c = '\t' then ['\\', 't']
  else if c = '\x08' then ['\\', 'b']
  else if c = '\x0c' then ['\\', 'f']
  else if c.toNat < 0x20 then ['\\', 'u', '0', '0', hexDigit (c.toNat / 16), hexDigit c.toNat]
  else [c]

/-- A string with its quotes. -/
def quoteChars (s : String) : List Char := '\x22' :: s.toList.flatMap escapedChar ++ ['\x22']

/-- The decimal digits of a natural number. -/
def natChars (n : Nat) : List Char := Nat.toDigits 10 n

/-- A number in exponent form. -/
def decimalChars (d : Decimal) : List Char :=
  (if d.negative then ['-'] else []) ++ natChars d.mantissa ++ 'e' ::
    (if d.exponent < 0 then ['-'] else []) ++ natChars d.exponent.natAbs

/-- The text of a value without parts. -/
def atomChars : Json → List Char
  | .null => "null".toList
  | .bool true => "true".toList
  | .bool false => "false".toList
  | .nat n => natChars n
  | .decimal d => decimalChars d
  | .str s => quoteChars s
  | _ => []

/-! ### The compact form -/

mutual

/-- A value without blanks. -/
def compactChars : Json → List Char
  | .arr items => '[' :: compactItems items ++ [']']
  | .obj members => '\x7b' :: compactMembers members ++ ['\x7d']
  | .garbled => ['\x22', '\\', 'u', 'd', '8', '0', '0', '\x22']
  | .null => atomChars .null
  | .bool b => atomChars (.bool b)
  | .nat n => atomChars (.nat n)
  | .decimal d => atomChars (.decimal d)
  | .str s => atomChars (.str s)

/-- The items of an array with commas between them. -/
def compactItems : List Json → List Char
  | [] => []
  | [item] => compactChars item
  | item :: items => compactChars item ++ ',' :: compactItems items

/-- The members of an object with commas between them. -/
def compactMembers : List (String × Json) → List Char
  | [] => []
  | [(key, value)] => quoteChars key ++ ':' :: compactChars value
  | (key, value) :: members =>
    quoteChars key ++ ':' :: compactChars value ++ ',' :: compactMembers members

end

/-! ### The indented form -/

/-- The start of a line at a nesting depth. -/
def newLine (depth : Nat) : List Char := '\n' :: List.replicate (2 * depth) ' '

mutual

/-- A value on several lines, whose first line starts at a nesting depth. Empty arrays and objects
    stay on one line. -/
def prettyChars (depth : Nat) : Json → List Char
  | .arr [] => ['[', ']']
  | .arr (item :: items) => '[' :: prettyItems (depth + 1) (item :: items) ++ newLine depth ++ [']']
  | .obj [] => ['\x7b', '\x7d']
  | .obj (member :: members) =>
    '\x7b' :: prettyMembers (depth + 1) (member :: members) ++ newLine depth ++ ['\x7d']
  | .garbled => ['\x22', '\\', 'u', 'd', '8', '0', '0', '\x22']
  | .null => atomChars .null
  | .bool b => atomChars (.bool b)
  | .nat n => atomChars (.nat n)
  | .decimal d => atomChars (.decimal d)
  | .str s => atomChars (.str s)

/-- The items of an array, each on lines of its own. -/
def prettyItems (depth : Nat) : List Json → List Char
  | [] => []
  | [item] => newLine depth ++ prettyChars depth item
  | item :: items => newLine depth ++ prettyChars depth item ++ ',' :: prettyItems depth items

/-- The members of an object, each on lines of its own. -/
def prettyMembers (depth : Nat) : List (String × Json) → List Char
  | [] => []
  | [(key, value)] => newLine depth ++ quoteChars key ++ ':' :: ' ' :: prettyChars depth value
  | (key, value) :: members =>
    newLine depth ++ quoteChars key ++ ':' :: ' ' :: prettyChars depth value ++
      ',' :: prettyMembers depth members

end

/-- The compact text of a value. -/
def compact (json : Json) : String := .ofList (compactChars json)

/-- The indented text of a value. -/
def pretty (json : Json) : String := .ofList (prettyChars 0 json)

end HelpAudit.Json
