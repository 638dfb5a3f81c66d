import HelpAudit.Yaml.Scalar

/-! Reading YAML documents. The block form is governed by columns: the entries of a list or a map
    start in the same column, and what is in them stands behind it. The argument `above` is the
    first column behind the entries around. -/

namespace HelpAudit.Yaml

/-! ### Moving on -/

/-- The place of the next character that counts, after blanks, line ends and comments. In brackets,
    `flow`, line ends do not make a place fresh. A tab does not stand for indentation. -/
def skipFrom (flow : Bool) (anchors : List (String × Yaml)) (fresh inComment : Bool)
    (line column : Nat) : List Char → Cursor
  | [] => ⟨[], line, column, fresh, anchors⟩
  | '\r' :: '\n' :: rest => skipFrom flow anchors (fresh || !flow) false (line + 1) 0 rest
  | c :: rest =>
    if isBreak c then skipFrom flow anchors (fresh || !flow) false (line + 1) 0 rest
    else if inComment then skipFrom flow anchors fresh true line (column + 1) rest
    else if c = ' ' || (c = '\t' && (flow || !fresh)) then
      skipFrom flow anchors fresh false line (column + 1) rest
    else if c = '#' then skipFrom flow anchors fresh true line (column + 1) rest
    else ⟨c :: rest, line, column, fresh, anchors⟩

namespace Cursor

/-- The place of the next character that counts. -/
def skip (flow : Bool) (cursor : Cursor) : Cursor :=
  skipFrom flow cursor.anchors cursor.fresh false cursor.line cursor.column cursor.rest

/-- The place behind some characters of the line. -/
def advance (count : Nat) (fresh : Bool) (cursor : Cursor) : Cursor :=
  { cursor with rest := cursor.rest.drop count, column := cursor.column + count, fresh := fresh }

/-- Whether a document ends here. -/
def atEnd (cursor : Cursor) : Bool :=
  cursor.rest.isEmpty || (cursor.column = 0 && isMarker cursor.rest)

/-- Whether the next character is the given one, with a blank or a line end behind it. -/
def atMark (mark : Char) (cursor : Cursor) : Bool :=
  match cursor.rest with
  | c :: rest => c = mark && blankNext rest
  | [] => false

/-- Whether the next character is the given one. -/
def isAt (mark : Char) (cursor : Cursor) : Bool := cursor.rest.head? = some mark

/-- The place with a name for a value. -/
def named (anchor : Option String) (value : Yaml) (cursor : Cursor) : Cursor :=
  match anchor with
  | some name => { cursor with anchors := (name, value) :: cursor.anchors }
  | none => cursor

/-- Whether what was read between two places can be a key without a mark in front: it is on one
    line and not too long. -/
def canBeKey (start stop : Cursor) : Bool :=
  start.line = stop.line && stop.column - start.column ≤ 1024

end Cursor

/-! ### Properties -/

def isAnchorChar (c : Char) : Bool := c.isAlphanum || c = '_' || c = '-'

/-- The name behind `&` or `*`, and the place behind it. -/
def anchorName (cursor : Cursor) : Option (String × Cursor) :=
  let rest := cursor.rest.drop 1
  let name := rest.takeWhile isAnchorChar
  let after := rest.dropWhile isAnchorChar
  if name.isEmpty then none
  else if blankNext after || after.head?.any (· ∈ ['?', ':', ',', ']', '\x7d', '%', '@', '`']) then
    some (.ofList name, cursor.advance (name.length + 1) false)
  else none

/-- The place behind a tag. -/
def tagEnd (flow : Bool) (cursor : Cursor) : Option Cursor :=
  let tag := cursor.rest.takeWhile fun c => !isBlank c && !isBreak c && !(flow && isFlowMark c)
  some (cursor.advance tag.length false)

/-- What may stand in front of a value: a name for it and a tag. -/
structure Properties where
  anchor : Option String := none
  tagged : Bool := false

def Properties.isEmpty (properties : Properties) : Bool :=
  properties.anchor.isNone && !properties.tagged

/-- The properties in front of a value, each at most once, and the place of the value. -/
def properties (flow : Bool) (cursor : Cursor) : Option (Properties × Cursor) := do
  let anchor (cursor : Cursor) : Option (Option String × Cursor) := do
    if cursor.isAt '&' then
      let (name, cursor) ← anchorName cursor
      return (some name, cursor.skip flow)
    return (none, cursor)
  let tag (cursor : Cursor) : Option (Bool × Cursor) := do
    if cursor.isAt '!' then
      return (true, (← tagEnd flow cursor).skip flow)
    return (false, cursor)
  let (first, cursor) ← anchor cursor
  let (tagged, cursor) ← tag cursor
  let (second, cursor) ← if first.isNone then anchor cursor else some (none, cursor)
  return ({ anchor := first <|> second, tagged := tagged }, cursor)

/-! ### Values -/

/-- The value behind a scalar that was read, at a place with the names that were known before. -/
def scalarAt (plain : Bool) (anchors : List (String × Yaml)) :
    Option (List Char × Cursor) → Option (Yaml × Cursor)
  | some (text, cursor) => some (.scalar text plain, { cursor with anchors := anchors })
  | none => none

mutual

/-- A value that needs no lines of its own: a scalar, a reference to a named value, or a list or map
    in brackets. -/
def simple : (steps : Nat) → (flow : Bool) → (above : Nat) → Cursor → Option (Yaml × Cursor)
  | 0, _, _, _ => none
  | steps + 1, flow, above, cursor =>
    match cursor.rest with
    | '[' :: _ => do
      let (items, cursor) ← flowItems steps (cursor.advance 1 true)
      return (.seq items, cursor)
    | '\x7b' :: _ => do
      let (entries, cursor) ← flowEntries steps (cursor.advance 1 true)
      return (.map entries, cursor)
    | '\'' :: rest =>
      scalarAt false cursor.anchors (single (.blanks []) cursor.line (cursor.column + 1) rest)
    | '"' :: rest =>
      scalarAt false cursor.anchors (double (.blanks []) cursor.line (cursor.column + 1) rest)
    | '*' :: _ => do
      let (name, after) ← anchorName cursor
      return (← cursor.anchors.lookup name, after)
    | text =>
      if startsPlain flow text then
        scalarAt true cursor.anchors (plain flow above (.blanks []) cursor.line cursor.column text)
      else none

/-- A value in brackets, with its properties. -/
def flowValue : (steps : Nat) → Cursor → Option (Yaml × Cursor)
  | 0, _ => none
  | steps + 1, cursor => do
    let (found, cursor) ← properties true cursor
    let ends := cursor.isAt ',' || cursor.isAt ']' || cursor.isAt '\x7d' || cursor.isAt ':'
    let (value, cursor) ←
      if ends && !found.isEmpty then some (empty, cursor)
      else simple steps true 0 cursor
    return (value, cursor.named found.anchor value)

/-- What follows `:` in brackets, up to one of the marks that end it. -/
def flowAfterColon : (steps : Nat) → Cursor → Option (Yaml × Cursor)
  | 0, _ => none
  | steps + 1, cursor =>
    let cursor := cursor.skip true
    if cursor.isAt ',' || cursor.isAt ']' || cursor.isAt '\x7d' then some (empty, cursor)
    else flowValue steps cursor

/-- A key and its value in brackets. A key without a value stands alone; then the flag is false. -/
def flowPair : (steps : Nat) → Cursor → Option ((Yaml × Yaml × Bool) × Cursor)
  | 0, _ => none
  | steps + 1, cursor => do
    let isMarked := cursor.isAt '?'
    let start := if isMarked then (cursor.advance 1 true).skip true else cursor
    let bare := isMarked &&
      (start.isAt ':' || start.isAt ',' || start.isAt ']' || start.isAt '\x7d')
    let (key, stop) ← if bare then some (empty, start) else flowValue steps start
    let cursor := stop.skip true
    if cursor.isAt ':' then
      if !isMarked && !start.canBeKey cursor then none
      let (value, cursor) ← flowAfterColon steps (cursor.advance 1 true)
      return ((key, value, true), cursor)
    return ((key, empty, isMarked), cursor)

/-- The items of a list in brackets. A pair stands for a map with one entry. -/
def flowItems : (steps : Nat) → Cursor → Option (List Yaml × Cursor)
  | 0, _ => none
  | steps + 1, cursor => do
    let cursor := cursor.skip true
    if cursor.atEnd then none
    if cursor.isAt ']' then return ([], cursor.advance 1 false)
    let ((key, value, isPair), cursor) ← flowPair steps cursor
    let item := if isPair then .map [(key, value)] else key
    let cursor := cursor.skip true
    if cursor.isAt ',' then
      let (items, cursor) ← flowItems steps (cursor.advance 1 true)
      return (item :: items, cursor)
    if cursor.isAt ']' then return ([item], cursor.advance 1 false)
    none

/-- The entries of a map in braces. -/
def flowEntries : (steps : Nat) → Cursor → Option (List (Yaml × Yaml) × Cursor)
  | 0, _ => none
  | steps + 1, cursor => do
    let cursor := cursor.skip true
    if cursor.atEnd then none
    if cursor.isAt '\x7d' then return ([], cursor.advance 1 false)
    let ((key, value, _), cursor) ← flowPair steps cursor
    let cursor := cursor.skip true
    if cursor.isAt ',' then
      let (entries, cursor) ← flowEntries steps (cursor.advance 1 true)
      return ((key, value) :: entries, cursor)
    if cursor.isAt '\x7d' then return ([(key, value)], cursor.advance 1 false)
    none

end

/-- The place of the colon that makes a value a key, if there is one. It stands on the line on which
    the value ends; a place behind a line end is fresh. -/
def colonAfter (cursor : Cursor) : Option Cursor :=
  let next := { cursor with fresh := false }.skip false
  if !cursor.fresh && next.line = cursor.line && next.atMark ':' then some next else none

mutual

/-- A value in block form. In the entry of a map, `inMap`, a list may start in the column of the
    entries around. -/
def blockValue : (steps : Nat) → (above : Nat) → (inMap : Bool) → Cursor → Option (Yaml × Cursor)
  | 0, _, _, _ => none
  | steps + 1, above, inMap, start => do
    let isOutside (cursor : Cursor) : Bool := cursor.atEnd || cursor.column < above
    if isOutside start && !(inMap && start.column + 1 = above && start.atMark '-' && start.fresh) then
      return (empty, start)
    let (found, cursor) ← if isOutside start then some ({}, start) else properties false start
    let named (result : Yaml × Cursor) : Yaml × Cursor :=
      (result.1, result.2.named found.anchor result.1)
    if isOutside cursor then
      if inMap && !cursor.atEnd && cursor.column + 1 = above && cursor.atMark '-' && cursor.fresh then
        let (items, cursor) ← blockItems steps cursor.column true cursor
        return named (.seq items, cursor)
      return named (empty, cursor)
    if cursor.atMark '-' then
      if !cursor.fresh then none
      let (items, cursor) ← blockItems steps cursor.column false cursor
      return named (.seq items, cursor)
    if cursor.atMark '?' then
      if !cursor.fresh then none
      let (entries, cursor) ← blockEntries steps cursor.column cursor
      return named (.map entries, cursor)
    match cursor.rest with
    | '|' :: rest =>
      return named (← scalarAt false cursor.anchors (block true above cursor.line rest))
    | '>' :: rest =>
      return named (← scalarAt false cursor.anchors (block false above cursor.line rest))
    | _ =>
      let (value, stop) ← simple steps false above cursor
      match colonAfter stop with
      | none => return named (value, stop)
      | some colon =>
        -- The value is the first key of a map. Properties on its line belong to the key.
        let ownLine := start.line = cursor.line
        let first := if ownLine then start else cursor
        if !first.fresh || !first.canBeKey colon then none
        let colon := if ownLine then colon.named found.anchor value else colon
        let (entries, cursor) ← blockAfterKey steps first.column value colon
        return if ownLine then (.map entries, cursor) else named (.map entries, cursor)

/-- The items of a list in block form, from the mark of the first one. A list that stands in the
    column of the map around ends at the next key. -/
def blockItems : (steps : Nat) → (column : Nat) → (inMap : Bool) → Cursor →
    Option (List Yaml × Cursor)
  | 0, _, _, _ => none
  | steps + 1, column, inMap, cursor => do
    let (item, cursor) ← blockValue steps (column + 1) false ((cursor.advance 1 true).skip false)
    let cursor := cursor.skip false
    if cursor.atEnd || cursor.column < column then return ([item], cursor)
    if column < cursor.column then none
    if cursor.atMark '-' then
      let (items, cursor) ← blockItems steps column inMap cursor
      return (item :: items, cursor)
    if inMap then return ([item], cursor)
    none

/-- The entries of a map in block form, from the first key on. -/
def blockEntries : (steps : Nat) → (column : Nat) → Cursor → Option (List (Yaml × Yaml) × Cursor)
  | 0, _, _ => none
  | steps + 1, column, cursor => do
    if cursor.atMark '?' then
      let (key, cursor) ← blockValue steps (column + 1) true ((cursor.advance 1 true).skip false)
      let cursor := cursor.skip false
      if !cursor.atEnd && cursor.column = column && cursor.atMark ':' then
        let (value, cursor) ← blockValue steps (column + 1) true ((cursor.advance 1 true).skip false)
        blockRest steps column (key, value) cursor
      else blockRest steps column (key, empty) cursor
    else
      let (found, inner) ← properties false cursor
      let (key, stop) ← simple steps false (column + 1) inner
      let colon ← colonAfter stop
      if inner.line ≠ cursor.line || !cursor.canBeKey colon then none
      blockAfterKey steps column key (colon.named found.anchor key)

/-- The entries of a map in block form, from the colon behind the first key on. -/
def blockAfterKey : (steps : Nat) → (column : Nat) → Yaml → Cursor →
    Option (List (Yaml × Yaml) × Cursor)
  | 0, _, _, _ => none
  | steps + 1, column, key, cursor => do
    let (value, cursor) ← blockValue steps (column + 1) true ((cursor.advance 1 false).skip false)
    blockRest steps column (key, value) cursor

/-- An entry and those that follow it in the same column. -/
def blockRest : (steps : Nat) → (column : Nat) → Yaml × Yaml → Cursor →
    Option (List (Yaml × Yaml) × Cursor)
  | 0, _, _, _ => none
  | steps + 1, column, entry, cursor => do
    let cursor := cursor.skip false
    if cursor.atEnd || cursor.column < column then return ([entry], cursor)
    if column < cursor.column then none
    let (entries, cursor) ← blockEntries steps column cursor
    return (entry :: entries, cursor)

end

/-! ### Documents -/

/-- Characters that may stand in a document. -/
def isAllowed (c : Char) : Bool :=
  let n := c.toNat
  n = 0x09 || n = 0x0A || n = 0x0D || (0x20 ≤ n && n ≤ 0x7E) || n = 0x85 ||
    (0xA0 ≤ n && n ≤ 0xD7FF) || (0xE000 ≤ n && n ≤ 0xFFFD) || 0x10000 ≤ n

/-- Whether only ends of documents follow. -/
def isFinished : (steps : Nat) → Cursor → Bool
  | 0, _ => false
  | steps + 1, cursor =>
    let cursor := cursor.skip false
    if cursor.rest.isEmpty then true
    else if cursor.column = 0 && cursor.isAt '.' && isMarker cursor.rest then
      isFinished steps (cursor.advance 3 false)
    else false

/-- The place behind the directives, which must be followed by the start of the document. -/
def skipDirectives : (steps : Nat) → (found : Bool) → Cursor → Option Cursor
  | 0, _, _ => none
  | steps + 1, found, cursor =>
    let cursor := cursor.skip false
    if cursor.column = 0 && cursor.isAt '%' then
      let (words, rest) := splitLine cursor.rest
      if ['%', 'Y', 'A', 'M', 'L', ' '].isPrefixOf words || ['%', 'T', 'A', 'G', ' '].isPrefixOf words
      then skipDirectives steps true { cursor with rest := rest, column := words.length }
      else none
    else if found && !(cursor.column = 0 && cursor.isAt '-' && isMarker cursor.rest) then none
    else some cursor

/-- The value of a text with one document. -/
def ofText? (text : String) : Option Yaml := do
  let chars := match text.toList with
    | '\ufeff' :: rest => rest
    | chars => chars
  if !chars.all isAllowed then none
  let steps := 8 * chars.length + 16
  let start ← skipDirectives steps false { rest := chars }
  if start.rest.isEmpty then return .void
  let isMarked := start.column = 0 && start.isAt '-' && isMarker start.rest
  let start := if isMarked then (start.advance 3 false).skip false else start
  let (value, stop) ← blockValue steps 0 false start
  if isFinished steps stop then return value else none

end HelpAudit.Yaml
