import HelpAudit.Entries
import HelpAudit.Toml.Scalar

/-! Reading TOML documents: first the lines of a document, then the table that they build up. -/

namespace HelpAudit.Toml

/-! ### Keys and values -/

def isBareChar (c : Char) : Bool := c.isAlphanum || c = '_' || c = '-'

/-- A key without dots. -/
def simpleKey : List Char → Option (String × List Char)
  | '"' :: rest => (basic rest).map fun (text, rest) => (.ofList text, rest)
  | '\'' :: rest => (literal rest).map fun (text, rest) => (.ofList text, rest)
  | text =>
    match text.takeWhile isBareChar with
    | [] => none
    | found => some (.ofList found, text.dropWhile isBareChar)

/-- The text after blanks. -/
def skipBlanks (text : List Char) : List Char := text.dropWhile isBlank

/-- A key: names with dots between them, and blanks around the dots. -/
def key : (steps : Nat) → List Char → Option (List String × List Char)
  | 0, _ => none
  | steps + 1, text => do
    let (name, rest) ← simpleKey (skipBlanks text)
    match skipBlanks rest with
    | '.' :: rest =>
      let (names, rest) ← key steps rest
      return (name :: names, rest)
    | rest => return ([name], rest)

/-- The text after blanks, line ends and comments. -/
def skipLines (inComment : Bool) : List Char → Option (List Char)
  | [] => some []
  | '\n' :: rest => skipLines false rest
  | '\r' :: '\n' :: rest => skipLines false rest
  | c :: rest =>
    if inComment then
      if isText c then skipLines true rest else none
    else if isBlank c then skipLines false rest
    else if c = '#' then skipLines true rest
    else some (c :: rest)

/-- A table with a value at a dotted key. Tables are added on the way; those that have a header of
    their own, or are written in braces, are closed. -/
def addDotted (name : String) (value : Toml) :
    List String → List (String × Toml) → Option (List (String × Toml))
  | [], entries => if (entries.lookup name).isSome then none else some (entries ++ [(name, value)])
  | key :: path, entries =>
    match entries.lookup key with
    | none => do
      return entries ++ [(key, .table .dotted (← addDotted name value path []))]
    | some (.table .dotted inner) => do
      return Entries.set key (.table .dotted (← addDotted name value path inner)) entries
    | some (.table .implied inner) => do
      if path.isEmpty then none
      return Entries.set key (.table .implied (← addDotted name value path inner)) entries
    | some (.tables elements) => do
      if path.isEmpty then none
      let last ← addDotted name value path (← elements.getLast?)
      return Entries.set key (.tables (elements.dropLast ++ [last])) entries
    | some _ => none

/-- A table with a value at a key. -/
def addEntry (path : List String) (value : Toml) (entries : List (String × Toml)) :
    Option (List (String × Toml)) := do
  addDotted (← path.getLast?) value path.dropLast entries

mutual

/-- A value. -/
def value : (steps : Nat) → List Char → Option (Toml × List Char)
  | 0, _ => none
  | steps + 1, '[' :: rest => do
    let (found, rest) ← items steps rest
    return (.arr found, rest)
  | steps + 1, '\x7b' :: rest =>
    match skipBlanks rest with
    | '\x7d' :: rest => some (.table .inline [], rest)
    | rest => do
      let (found, rest) ← fields steps [] rest
      return (.table .inline found, rest)
  | _ + 1, '"' :: rest => (string ('"' :: rest)).map fun (text, rest) => (.str (.ofList text), rest)
  | _ + 1, '\'' :: rest => (string ('\'' :: rest)).map fun (text, rest) => (.str (.ofList text), rest)
  | _ + 1, text => scalar text

/-- The items of an array, up to its closing bracket. A comma may follow the last item. -/
def items : (steps : Nat) → List Char → Option (List Toml × List Char)
  | 0, _ => none
  | steps + 1, text => do
    match ← skipLines false text with
    | ']' :: rest => return ([], rest)
    | text =>
      let (first, rest) ← value steps text
      match ← skipLines false rest with
      | ',' :: rest =>
        let (others, rest) ← items steps rest
        return (first :: others, rest)
      | ']' :: rest => return ([first], rest)
      | _ => none

/-- The entries of a table in braces, up to its closing brace. -/
def fields : (steps : Nat) → List (String × Toml) → List Char →
    Option (List (String × Toml) × List Char)
  | 0, _, _ => none
  | steps + 1, entries, text => do
    let (path, rest) ← key text.length text
    match rest with
    | '=' :: rest =>
      let (found, rest) ← value steps (skipBlanks rest)
      let entries ← addEntry path found entries
      match skipBlanks rest with
      | ',' :: rest => fields steps entries rest
      | '\x7d' :: rest => return (entries, rest)
      | _ => none
    | _ => none

end

/-! ### Lines -/

/-- A line of a document that says something. -/
inductive Line where
  /-- The header of a table. -/
  | table (path : List String)
  /-- The header of one of several tables with the same name. -/
  | element (path : List String)
  | entry (path : List String) (value : Toml)

/-- The text after a line, which may end in a comment. -/
def endLine (inComment : Bool) : List Char → Option (List Char)
  | [] => some []
  | '\n' :: rest => some rest
  | '\r' :: '\n' :: rest => some rest
  | c :: rest =>
    if inComment then
      if isText c then endLine true rest else none
    else if isBlank c then endLine false rest
    else if c = '#' then endLine true rest
    else none

/-- One line that says something. -/
def line (text : List Char) : Option (Line × List Char) :=
  match text with
  | '[' :: '[' :: rest => do
    match ← key rest.length rest with
    | (path, ']' :: ']' :: rest) => return (.element path, rest)
    | _ => none
  | '[' :: rest => do
    match ← key rest.length rest with
    | (path, ']' :: rest) => return (.table path, rest)
    | _ => none
  | _ => do
    match ← key text.length text with
    | (path, '=' :: rest) =>
      let (found, rest) ← value (2 * rest.length + 2) (skipBlanks rest)
      return (.entry path found, rest)
    | _ => none

/-- The lines of a document. -/
def lines : (steps : Nat) → List Char → Option (List Line)
  | 0, _ => none
  | steps + 1, text => do
    match ← skipLines false text with
    | [] => return []
    | text =>
      let (found, rest) ← line text
      return found :: (← lines steps (← endLine false rest))

/-! ### Tables -/

/-- Changes the table at the path of a header. Tables are added on the way, and of several tables
    with one name the last one is meant. -/
def atHeader (change : List (String × Toml) → Option (List (String × Toml))) :
    List String → List (String × Toml) → Option (List (String × Toml))
  | [], entries => change entries
  | key :: path, entries =>
    match entries.lookup key with
    | none => do return entries ++ [(key, .table .implied (← atHeader change path []))]
    | some (.table kind inner) => do
      if kind = .inline then none
      return Entries.set key (.table kind (← atHeader change path inner)) entries
    | some (.tables elements) => do
      let last ← atHeader change path (← elements.getLast?)
      return Entries.set key (.tables (elements.dropLast ++ [last])) entries
    | some _ => none

/-- Opens a table, which must be new or only implied so far. -/
def openTable (name : String) (entries : List (String × Toml)) : Option (List (String × Toml)) :=
  match entries.lookup name with
  | none => some (entries ++ [(name, .table .defined [])])
  | some (.table .implied inner) => some (Entries.set name (.table .defined inner) entries)
  | some _ => none

/-- Opens one more table with a name. -/
def openElement (name : String) (entries : List (String × Toml)) : Option (List (String × Toml)) :=
  match entries.lookup name with
  | none => some (entries ++ [(name, .tables [[]])])
  | some (.tables elements) => some (Entries.set name (.tables (elements ++ [[]])) entries)
  | some _ => none

/-- The table that lines build up, from what was there before them and the open header. -/
def build (header : List String) (root : List (String × Toml)) :
    List Line → Option (List (String × Toml))
  | [] => some root
  | .table path :: rest => do
    let name ← path.getLast?
    build path (← atHeader (openTable name) path.dropLast root) rest
  | .element path :: rest => do
    let name ← path.getLast?
    build path (← atHeader (openElement name) path.dropLast root) rest
  | .entry path value :: rest => do
    build header (← atHeader (addEntry path value) header root) rest

/-- The value of a document. A byte order mark in front does not count. -/
def ofText? (text : String) : Option Toml := do
  let text := match text.toList with
    | '\ufeff' :: rest => rest
    | text => text
  let entries ← build [] [] (← lines (text.length + 1) text)
  return .table .defined entries

end HelpAudit.Toml
