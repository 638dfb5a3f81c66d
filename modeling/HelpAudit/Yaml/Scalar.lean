import HelpAudit.Yaml

/-! Reading YAML scalars: plain and quoted ones, whose lines are folded, and blocks. -/

namespace HelpAudit.Yaml

/-- A place in a text that is being read, with the values that have been given names before it. -/
structure Cursor where
  rest : List Char
  line : Nat := 0
  column : Nat := 0
  /-- Whether a list or a map with a line for each entry may begin here. -/
  fresh : Bool := true
  anchors : List (String × Yaml) := []

/-! ### Characters -/

def isBlank (c : Char) : Bool := c = ' ' || c = '\t'

/-- Characters that end a line. -/
def isBreak (c : Char) : Bool :=
  c = '\n' || c = '\r' || c = '\u0085' || c = '\u2028' || c = '\u2029'

/-- What a line end contributes to a text: a line feed, unless it is a separator of its own. -/
def breakText (c : Char) : List Char := if c = '\u2028' || c = '\u2029' then [c] else ['\n']

/-- Whether a text starts with a blank or a line end, or is at its end. -/
def blankNext : List Char → Bool
  | [] => true
  | c :: _ => isBlank c || isBreak c

/-- Whether a document starts or ends here, when this is the start of a line. -/
def isMarker : List Char → Bool
  | '-' :: '-' :: '-' :: rest => blankNext rest
  | '.' :: '.' :: '.' :: rest => blankNext rest
  | _ => false

/-! ### Folding -/

/-- The white space since the last character of a scalar: blanks, or line ends and the first of
    them. -/
inductive Gap where
  | blanks (text : List Char)
  | breaks (first more : List Char)

namespace Gap

/-- What white space between characters contributes: a single line end becomes a blank. -/
def text : Gap → List Char
  | .blanks text => text
  | .breaks first more =>
    if first = ['\n'] then
      if more = [] then [' '] else more
    else first ++ more

/-- White space with one more blank. Blanks at the start of a line do not count. -/
def addBlank (c : Char) : Gap → Gap
  | .blanks text => .blanks (text ++ [c])
  | .breaks first more => .breaks first more

/-- White space with one more line end. -/
def addBreak (c : Char) : Gap → Gap
  | .blanks _ => .breaks (breakText c) []
  | .breaks first more => .breaks first (more ++ breakText c)

def isBroken : Gap → Bool
  | .blanks _ => false
  | .breaks .. => true

/-- Whether there is any white space. -/
def isSome : Gap → Bool
  | .blanks text => !text.isEmpty
  | .breaks .. => true

end Gap

/-- A text before what is read on. -/
def prepend (text : List Char) : Option (List Char × Cursor) → Option (List Char × Cursor)
  | some (found, cursor) => some (text ++ found, cursor)
  | none => none

/-! ### Plain scalars -/

def isFlowMark (c : Char) : Bool := c ∈ [',', '[', ']', '\x7b', '\x7d']

/-- Whether a plain scalar ends before a character: at the end of a key, and inside brackets also at
    the marks that have a meaning there. -/
def endsPlain (flow : Bool) (c : Char) (rest : List Char) : Bool :=
  (c = ':' && blankNext rest) || (flow && isFlowMark c)

/-- Whether the next line belongs to a plain scalar no more. -/
def leavesPlain (flow : Bool) (indent column : Nat) (text : List Char) : Bool :=
  (!flow && column < indent) || text.head? = some '#' || (column = 0 && isMarker text)

/-- A plain scalar. Its lines start at the column `indent` or behind it. -/
def plain (flow : Bool) (indent : Nat) (gap : Gap) (line column : Nat) :
    List Char → Option (List Char × Cursor)
  | [] => some ([], { rest := [], line := line, column := column, fresh := gap.isBroken })
  | '\r' :: '\n' :: rest => plain flow indent (gap.addBreak '\n') (line + 1) 0 rest
  | c :: rest =>
    if isBreak c then plain flow indent (gap.addBreak c) (line + 1) 0 rest
    else if isBlank c then
      if gap.isBroken && c = '\t' && column < indent then none
      else plain flow indent (gap.addBlank c) line (column + 1) rest
    else if gap.isSome && leavesPlain flow indent column (c :: rest) then
      some ([], { rest := c :: rest, line := line, column := column, fresh := gap.isBroken })
    else if flow && c = ':' && rest.head?.any (fun d => isFlowMark d || d = '?') then none
    else if endsPlain flow c rest then
      some ([], { rest := c :: rest, line := line, column := column, fresh := gap.isBroken })
    else prepend (gap.text ++ [c]) (plain flow indent (.blanks []) line (column + 1) rest)

/-- Whether a plain scalar can start here. -/
def startsPlain (flow : Bool) : List Char → Bool
  | [] => false
  | c :: rest =>
    if c = '-' then !blankNext rest
    else if c = '?' || c = ':' then !flow && !blankNext rest
    else !isBlank c && !isBreak c && c ∉ [',', '[', ']', '\x7b', '\x7d', '#', '&', '*', '!', '|',
      '>', '\'', '"', '%', '@', '`']

/-! ### Quoted scalars -/

/-- A scalar in single quotes, after the opening one. A quote inside is written twice. -/
def single (gap : Gap) (line column : Nat) : List Char → Option (List Char × Cursor)
  | [] => none
  | '\r' :: '\n' :: rest => single (gap.addBreak '\n') (line + 1) 0 rest
  | '\'' :: '\'' :: rest => prepend (gap.text ++ ['\'']) (single (.blanks []) line (column + 2) rest)
  | c :: rest =>
    if isBreak c then single (gap.addBreak c) (line + 1) 0 rest
    else if isBlank c then single (gap.addBlank c) line (column + 1) rest
    else if column = 0 && isMarker (c :: rest) then none
    else if c = '\'' then
      some (gap.text, { rest := rest, line := line, column := column + 1, fresh := false })
    else prepend (gap.text ++ [c]) (single (.blanks []) line (column + 1) rest)

/-- The character with the code point that hexadecimal digits give. -/
def codePoint? (digits : List Char) : Option Char := do
  let value ← if digits.head? = some '+' then none else natural? 16 digits
  if value.isValidChar then some (Char.ofNat value) else none

/-- The character that a letter after a backslash stands for. -/
def escape? : Char → Option Char
  | '0' => some '\x00'
  | 'a' => some '\x07'
  | 'b' => some '\x08'
  | 't' => some '\t'
  | '\t' => some '\t'
  | 'n' => some '\n'
  | 'v' => some '\x0b'
  | 'f' => some '\x0c'
  | 'r' => some '\r'
  | 'e' => some '\x1b'
  | ' ' => some ' '
  | '"' => some '"'
  | '/' => some '/'
  | '\\' => some '\\'
  | 'N' => some '\u0085'
  | '_' => some '\u00a0'
  | 'L' => some '\u2028'
  | 'P' => some '\u2029'
  | _ => none

/-- A scalar in double quotes, after the opening one. A backslash at the end of a line takes the
    line end away. -/
def double (gap : Gap) (line column : Nat) : List Char → Option (List Char × Cursor)
  | [] => none
  | '\r' :: '\n' :: rest => double (gap.addBreak '\n') (line + 1) 0 rest
  | '\\' :: '\r' :: '\n' :: rest => prepend gap.text (double (.breaks [] []) (line + 1) 0 rest)
  | '\\' :: 'x' :: a :: b :: rest =>
    match codePoint? [a, b] with
    | some found => prepend (gap.text ++ [found]) (double (.blanks []) line (column + 4) rest)
    | none => none
  | '\\' :: 'u' :: a :: b :: c :: d :: rest =>
    match codePoint? [a, b, c, d] with
    | some found => prepend (gap.text ++ [found]) (double (.blanks []) line (column + 6) rest)
    | none => none
  | '\\' :: 'U' :: a :: b :: c :: d :: e :: f :: g :: h :: rest =>
    match codePoint? [a, b, c, d, e, f, g, h] with
    | some found => prepend (gap.text ++ [found]) (double (.blanks []) line (column + 10) rest)
    | none => none
  | '\\' :: c :: rest =>
    if isBreak c then prepend gap.text (double (.breaks [] []) (line + 1) 0 rest)
    else match escape? c with
      | some found => prepend (gap.text ++ [found]) (double (.blanks []) line (column + 2) rest)
      | none => none
  | c :: rest =>
    if isBreak c then double (gap.addBreak c) (line + 1) 0 rest
    else if isBlank c then double (gap.addBlank c) line (column + 1) rest
    else if c = '\\' || (column = 0 && isMarker (c :: rest)) then none
    else if c = '"' then
      some (gap.text, { rest := rest, line := line, column := column + 1, fresh := false })
    else prepend (gap.text ++ [c]) (double (.blanks []) line (column + 1) rest)

/-! ### Blocks -/

/-- How the line ends after a block are treated. -/
inductive Chomping where
  | strip
  | clip
  | keep
  deriving DecidableEq

def Chomping.ofMark : Char → Chomping
  | '-' => .strip
  | '+' => .keep
  | _ => .clip

def isIndentDigit (c : Char) : Bool := '1' ≤ c && c ≤ '9'

/-- The marks after `|` or `>`: how the end is treated and by how much the block is indented, in
    any order. -/
def blockMarks : List Char → Chomping × Nat × List Char
  | c :: d :: rest =>
    if (c = '-' || c = '+') && isIndentDigit d then (.ofMark c, d.toNat - '0'.toNat, rest)
    else if isIndentDigit c && (d = '-' || d = '+') then (.ofMark d, c.toNat - '0'.toNat, rest)
    else if c = '-' || c = '+' then (.ofMark c, 0, d :: rest)
    else if isIndentDigit c then (.clip, c.toNat - '0'.toNat, d :: rest)
    else (.clip, 0, c :: d :: rest)
  | [c] =>
    if c = '-' || c = '+' then (.ofMark c, 0, [])
    else if isIndentDigit c then (.clip, c.toNat - '0'.toNat, [])
    else (.clip, 0, [c])
  | [] => (.clip, 0, [])

/-- What follows the line of a block's marks, on which only a comment may stand. -/
def blockStart (inComment : Bool) : List Char → Option (List Char)
  | [] => some []
  | '\r' :: '\n' :: rest => some rest
  | c :: rest =>
    if isBreak c then some rest
    else if inComment then blockStart true rest
    else if isBlank c then blockStart false rest
    else if c = '#' then blockStart true rest
    else none

/-- The line ends before the next line of a block that is not empty: their text, the column that is
    reached, the greatest one on the way, the number of lines, and the text that follows. The column
    `indent` is 0 as long as it is not known. -/
structure Breaks where
  text : List Char
  column : Nat
  greatest : Nat
  lines : Nat
  rest : List Char

/-- The line ends before the next line of a block. Tabs do not indent. -/
def blockBreaks (indent column greatest : Nat) : List Char → Option Breaks
  | [] => some ⟨[], column, max column greatest, 0, []⟩
  | c :: rest =>
    if c = ' ' && (indent = 0 || column < indent) then
      blockBreaks indent (column + 1) greatest rest
    else if c = '\t' && (indent = 0 || column < indent) then none
    else if c = '\r' && rest.head? = some '\n' then
      -- The pair is one line end, which the line feed stands for.
      blockBreaks indent column greatest rest
    else if isBreak c then
      match blockBreaks indent 0 (max column greatest) rest with
      | some found => some { found with text := breakText c ++ found.text, lines := found.lines + 1 }
      | none => none
    else some ⟨[], column, max column greatest, 0, c :: rest⟩

/-- A line and the text from its end on. -/
def splitLine (text : List Char) : List Char × List Char :=
  (text.takeWhile (!isBreak ·), text.dropWhile (!isBreak ·))

/-- The first line end of a text, and what follows it. -/
def firstBreak : List Char → List Char × List Char
  | [] => ([], [])
  | '\r' :: '\n' :: rest => (['\n'], rest)
  | c :: rest => (breakText c, rest)

/-- The lines of a block. `first` and `more` are the line ends before this line, and `wasBlank`
    tells that the line before started with a blank; such lines are not folded. -/
def blockLines (literal : Bool) (chomping : Chomping) (indent : Nat) :
    (steps : Nat) → (wasBlank : Bool) → (first more : List Char) → (line column : Nat) → List Char →
    Option (List Char × Cursor)
  | 0, _, _, _, _, _, _ => none
  | steps + 1, wasBlank, first, more, line, column, text =>
    if column = indent ∧ text ≠ [] then
      let isBlankLine := text.head?.any isBlank
      let joint :=
        if !literal && first = ['\n'] && !wasBlank && !isBlankLine then
          if more = [] then [' '] else more
        else first ++ more
      let (content, rest) := splitLine text
      let (lineEnd, rest) := firstBreak rest
      match blockBreaks indent 0 0 rest with
      | some found =>
        prepend (joint ++ content)
          (blockLines literal chomping indent steps isBlankLine lineEnd found.text
            (line + 1 + found.lines) found.column found.rest)
      | none => none
    else
      let ending := match chomping with
        | .strip => []
        | .clip => first
        | .keep => first ++ more
      some (ending, { rest := text, line := line, column := column, fresh := true })

/-- A block after its `|` or `>`. Its lines are indented at least to the column `above`. -/
def block (literal : Bool) (above line : Nat) (text : List Char) : Option (List Char × Cursor) := do
  let (chomping, increment, rest) := blockMarks text
  let rest ← blockStart false rest
  let given := if increment = 0 then 0 else if above = 0 then increment else above - 1 + increment
  let found ← blockBreaks given 0 0 rest
  let indent := if given = 0 then max (max found.greatest above) 1 else given
  blockLines literal chomping indent (text.length + 1) false [] found.text (line + 1 + found.lines)
    found.column found.rest

end HelpAudit.Yaml
