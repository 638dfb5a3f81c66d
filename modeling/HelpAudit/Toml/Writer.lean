import HelpAudit.Text.Quoted
import HelpAudit.Toml.Reader

/-! Writing TOML documents. The values of a table come before the tables in it; a table has a header
    when it has values or nothing at all. -/

namespace HelpAudit.Toml

/-! ### Strings -/

/-- The forms of strings. -/
inductive StringForm where
  | basic
  | literal
  | longBasic
  | longLiteral
  deriving DecidableEq

/-- The length of the longest run of a character. -/
def longestRun (c : Char) (text : List Char) : Nat :=
  (text.foldl (fun (run, longest) d =>
    if d = c then (run + 1, max (run + 1) longest) else (0, longest)) (0, 0)).2

/-- Whether a character can only be written as an escape. -/
def needsEscape (c : Char) : Bool :=
  c ≠ '\t' && c ≠ '\n' && (c.toNat ≤ 0x1f || c.toNat = 0x7f)

/-- The form of a string: the first one in which it needs no escapes. -/
def StringForm.of (text : List Char) : StringForm :=
  let escapes := text.any needsEscape
  let newline := text.contains '\n'
  let backslash := text.contains '\\'
  let doubles := longestRun '"' text
  let singles := longestRun '\'' text
  if !escapes && !backslash && doubles = 0 && !newline then .basic
  else if !escapes && singles = 0 && !newline then .literal
  else if !escapes && !backslash && doubles ≤ 2 then .longBasic
  else if !escapes && singles ≤ 2 then .longLiteral
  else if newline then .longBasic
  else .basic

/-- Text inside double quotes. Of the quotes in a row, `allowed` may stand without a backslash, and
    `run` of them stand before the text. -/
def escaped (long : Bool) (allowed : Nat) (run : Nat) : List Char → List Char
  | [] => []
  | c :: rest =>
    if c = '"' then
      if run < allowed then '"' :: escaped long allowed (run + 1) rest
      else '\\' :: '"' :: escaped long allowed 0 rest
    else
      (if c = '\x08' then ['\\', 'b']
      else if c = '\t' then ['\\', 't']
      else if c = '\n' then (if long then ['\n'] else ['\\', 'n'])
      else if c = '\x0c' then ['\\', 'f']
      else if c = '\r' then ['\\', 'r']
      else if c = '\\' then ['\\', '\\']
      else if c.toNat ≤ 0x1f || c.toNat = 0x7f then
        ['\\', 'u', '0', '0', Nat.digitChar (c.toNat / 16), (Nat.digitChar (c.toNat % 16)).toUpper]
      else [c]) ++ escaped long allowed 0 rest

/-- A string in a form. A long string that has several lines starts on a line of its own. -/
def StringForm.render (form : StringForm) (text : List Char) : List Char :=
  let newline := if text.contains '\n' then ['\n'] else []
  match form with
  | .basic => '"' :: escaped false 0 0 text ++ ['"']
  | .literal => '\'' :: text ++ ['\'']
  | .longBasic => "\"\"\"".toList ++ newline ++ escaped true 2 0 text ++ "\"\"\"".toList
  | .longLiteral => "'''".toList ++ newline ++ text ++ "'''".toList

/-- A string. -/
def renderString (text : List Char) : List Char := (StringForm.of text).render text

/-- A key: as it is when it has only letters, digits, dashes and underscores, and else quoted. -/
def renderKey (name : String) : List Char :=
  let text := name.toList
  let escapes := text.any fun c => needsEscape c || c = '\n'
  if !text.isEmpty && text.all isBareChar then text
  else if !escapes && !text.contains '\\' && !text.contains '"' then StringForm.basic.render text
  else if !escapes && !text.contains '\'' then StringForm.literal.render text
  else StringForm.basic.render text

/-! ### Documents -/

mutual

/-- A value on the right of an equals sign. Arrays of two or more items have a line for each. -/
def renderValue : Json → List Char
  | .str text => renderString text.toList
  | .nat n => Nat.toDigits 10 n
  | .bool b => (if b then "true" else "false").toList
  | .arr items =>
    if items.length < 2 then '[' :: renderItems false items ++ [']']
    else ['[', '\n'] ++ renderItems true items ++ [']']
  | _ => []

/-- The items of an array, one after the other or each on a line. -/
def renderItems (onLines : Bool) : List Json → List Char
  | [] => []
  | item :: items =>
    (if onLines then "    ".toList ++ renderValue item ++ [',', '\n'] else renderValue item) ++
      renderItems onLines items

end

/-- Whether a member of a tree is a table. -/
def isTable : Json → Bool
  | .obj _ => true
  | _ => false

/-- The entries of a table that are not tables. -/
def renderEntries : List (String × Json) → List Char
  | [] => []
  | (name, value) :: members =>
    (if isTable value then [] else renderKey name ++ [' ', '=', ' '] ++ renderValue value ++ ['\n']) ++
      renderEntries members

/-- The header of a table. -/
def renderHeader (path : List String) : List Char :=
  ['\n', '['] ++ ['.'].intercalate (path.map renderKey) ++ [']', '\n']

mutual

/-- A table with its header, if it needs one, and the tables in it. -/
def renderTable (path : List String) : Json → List Char
  | .obj members =>
    (if members.isEmpty || members.any (!isTable ·.2) then renderHeader path else []) ++
      renderEntries members ++ renderTables path members
  | _ => []

/-- The tables among the members of a table. -/
def renderTables (path : List String) : List (String × Json) → List Char
  | [] => []
  | (name, value) :: members => renderTable (path ++ [name]) value ++ renderTables path members

end

/-- A document with the members of a tree. -/
def render (members : List (String × Json)) : String :=
  .ofList (renderEntries members ++ renderTables [] members)

end HelpAudit.Toml
