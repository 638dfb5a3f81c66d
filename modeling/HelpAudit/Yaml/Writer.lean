import HelpAudit.Text.UpperCase
import HelpAudit.Text.Utf8
import HelpAudit.Yaml.Reader

/-! Writing YAML documents in block form. Scalars are plain where that reads back as the same text;
    texts with several lines are blocks. -/

namespace HelpAudit.Yaml

/-! ### Plain texts -/

/-- Whether a text is a whole number, which may be negative. -/
def isInteger (text : List Char) : Bool :=
  (unsigned? text).any (· < Nat.pow 2 128) ||
    match text with
    | '-' :: rest =>
      rest.head? ≠ some '+' && rest.head? ≠ some '-' && !hasLeadingZeros text &&
        ((marked? rest).any (· ≤ Nat.pow 2 127) || (natural? 10 rest).any (· ≤ Nat.pow 2 127))
    | _ => false

/-- Whether a text is digits with at most one point, and at least one digit. -/
def isMantissa (text : List Char) : Bool :=
  text.all (fun c => c.isDigit || c = '.') && text.any Char.isDigit && text.count '.' ≤ 1

/-- Whether a text is an exponent behind its letter. -/
def isExponent (text : List Char) : Bool :=
  let digits := dropSign text
  !digits.isEmpty && digits.all Char.isDigit

/-- Whether a text has the form of a decimal number. -/
def isDecimal (text : List Char) : Bool :=
  let isMark (c : Char) : Bool := c = 'e' || c = 'E'
  let body := dropSign text
  isMantissa (body.takeWhile (!isMark ·)) &&
    match body.dropWhile (!isMark ·) with
    | [] => true
    | _ :: exponent => isExponent exponent

/-- The least number that is infinite as a floating-point number of 64 bits. -/
def infinityBound : Nat := (Nat.pow 2 54 - 1) * Nat.pow 2 970

/-- Whether a text in the form of a decimal number gives a finite floating-point number. -/
def isFinite (text : List Char) : Bool :=
  let isMark (c : Char) : Bool := c = 'e' || c = 'E'
  let body := dropSign text
  let mantissa := body.takeWhile (!isMark ·)
  let exponent := (body.dropWhile (!isMark ·)).drop 1
  let digits := mantissa.filter Char.isDigit
  let places := ((mantissa.dropWhile (· ≠ '.')).drop 1).length
  let power := (natural? 10 (dropSign exponent)).getD 0
  let (up, down) :=
    if exponent.head? = some '-' then (0, places + power) else (power - places, places - power)
  -- More powers of ten than these cannot change the answer.
  (natural? 10 digits).getD 0 * Nat.pow 10 (min up 310) <
    infinityBound * Nat.pow 10 (min down digits.length)

/-- Whether a text could be taken for a number. -/
def looksNumeric (text : List Char) : Bool :=
  isInteger text || (isDecimal text && !hasLeadingZeros text && isFinite text) ||
    String.ofList text ∈ [".inf", ".Inf", ".INF", "+.inf", "+.Inf", "+.INF", "-.inf", "-.Inf", "-.INF",
      ".nan", ".NaN", ".NAN"]

/-- Whether a text in quotes would be read as something else without them, by this reader or by
    others. -/
def isAmbiguous (text : List Char) : Bool :=
  let lower := text.map Char.toLower
  text.isEmpty || text.head?.any Char.isDigit || isNullWord lower || (boolWord? lower).isSome ||
    String.ofList lower ∈ ["y", "yes", "n", "no", "on", "off"] || looksNumeric text

/-! ### Styles -/

/-- How a scalar is written. -/
inductive ScalarStyle where
  | plain
  | single
  | double
  | literal
  deriving DecidableEq

/-- Characters that are written as they are. -/
def isPrintable (c : Char) : Bool :=
  let n := c.toNat
  n = 0x0A || (0x20 ≤ n && n ≤ 0x7E) || (0xA0 ≤ n && n ≤ 0xD7FF) ||
    (0xE000 ≤ n && n ≤ 0xFFFD && n ≠ 0xFEFF)

/-- Whether a first character has a meaning of its own. -/
def isIndicator (c : Char) : Bool :=
  c ∈ ['#', ',', '[', ']', '\x7b', '\x7d', '&', '*', '!', '|', '>', '\'', '"', '%', '@', '`']

/-- Whether a text has a part that has a meaning of its own: a colon before a blank, or a number
    sign after one. -/
def hasInnerMark (afterBlank : Bool) : List Char → Bool
  | [] => false
  | c :: rest =>
    (c = ':' && blankNext rest) || (c = '#' && afterBlank) ||
      hasInnerMark (isBlank c || isBreak c) rest

/-- Whether a text cannot be plain because of its marks. -/
def hasMarks (text : List Char) : Bool :=
  match text with
  | [] => false
  | c :: rest =>
    ['-', '-', '-'].isPrefixOf text || ['.', '.', '.'].isPrefixOf text || isIndicator c ||
      ((c = '?' || c = ':' || c = '-') && blankNext rest) || hasInnerMark false text

/-- Whether a text has a pair of neighbours with the given properties. -/
def hasPair (first second : Char → Bool) : List Char → Bool
  | a :: b :: rest => (first a && second b) || hasPair first second (b :: rest)
  | _ => false

/-- Whether a text cannot be written without escapes. -/
def needsEscapes (text : List Char) : Bool :=
  text.any (!isPrintable ·) || hasPair (· = ' ') isBreak text

/-- Whether a text can be plain. -/
def canBePlain (text : List Char) : Bool :=
  !text.any isBreak && text.head? ≠ some ' ' && text.getLast? ≠ some ' ' && !needsEscapes text &&
    !hasMarks text

/-- The style of a text. In a key on one line, `inKey`, a text of several lines needs escapes. -/
def ScalarStyle.of (inKey : Bool) (text : List Char) : ScalarStyle :=
  if text.contains '\n' then
    if inKey || needsEscapes text || text.getLast? = some ' ' then .double else .literal
  else if inKey && text.any isBreak then .double
  else if !isAmbiguous text && canBePlain text then .plain
  else if needsEscapes text || hasPair isBreak (· = ' ') text then .double
  else .single

/-! ### Scalars -/

/-- Hexadecimal digits of a number, at least as many as `width`. -/
def hexDigits (width n : Nat) : List Char :=
  let digits := (Nat.toDigits 16 n).map Char.toUpper
  List.replicate (width - digits.length) '0' ++ digits

/-- The escape of a character. -/
def escapeOf (c : Char) : List Char :=
  let n := c.toNat
  match c with
  | '\x00' => ['\\', '0']
  | '\x07' => ['\\', 'a']
  | '\x08' => ['\\', 'b']
  | '\t' => ['\\', 't']
  | '\n' => ['\\', 'n']
  | '\x0b' => ['\\', 'v']
  | '\x0c' => ['\\', 'f']
  | '\r' => ['\\', 'r']
  | '\x1b' => ['\\', 'e']
  | '"' => ['\\', '"']
  | '\\' => ['\\', '\\']
  | '\u0085' => ['\\', 'N']
  | '\u2028' => ['\\', 'L']
  | '\u2029' => ['\\', 'P']
  | _ =>
    if n ≤ 0xFF then '\\' :: 'x' :: hexDigits 2 n
    else if n ≤ 0xFFFF then '\\' :: 'u' :: hexDigits 4 n
    else '\\' :: 'U' :: hexDigits 8 n

/-- A text inside double quotes. -/
def doubleQuoted (text : List Char) : List Char :=
  text.flatMap fun c =>
    if isPrintable c && !isBreak c && c ≠ '"' && c ≠ '\\' then [c] else escapeOf c

/-- A text inside single quotes. Lines after the first are indented. -/
def singleQuoted (indent : Nat) (afterBreak : Bool) : List Char → List Char
  | [] => if afterBreak then List.replicate indent ' ' else []
  | c :: rest =>
    if isBreak c then c :: singleQuoted indent true rest
    else
      (if afterBreak && c ≠ ' ' then List.replicate indent ' ' else []) ++
        (if c = '\'' then ['\'', '\''] else [c]) ++
        singleQuoted indent (afterBreak && c = ' ') rest

/-- The lines of a block, each after its indentation. -/
def literalLines (indent : Nat) (afterBreak : Bool) : List Char → List Char
  | [] => []
  | c :: rest =>
    if isBreak c then c :: literalLines indent true rest
    else (if afterBreak then List.replicate indent ' ' else []) ++ c :: literalLines indent false rest

/-- The marks of a block: its indentation when that cannot be seen, and how it ends. -/
def literalMarks (text : List Char) : List Char :=
  (if text.head?.any fun c => c = ' ' || isBreak c then ['2'] else []) ++
    match text.reverse with
    | [] => ['-']
    | [c] => if isBreak c then ['+'] else ['-']
    | c :: d :: _ => if !isBreak c then ['-'] else if isBreak d then ['+'] else []

/-- A scalar in a style, in a list or map whose entries are indented by `indent`. -/
def ScalarStyle.render (style : ScalarStyle) (indent : Nat) (text : List Char) : List Char :=
  match style with
  | .plain => text
  | .single => '\'' :: singleQuoted (indent + 2) false text ++ ['\'']
  | .double => '"' :: doubleQuoted text ++ ['"']
  | .literal => '|' :: literalMarks text ++ '\n' :: literalLines (indent + 2) true text

/-- The line end behind a scalar. A block that ends with a line end has its own. -/
def ScalarStyle.lineEnd (style : ScalarStyle) (text : List Char) : List Char :=
  if style = .literal ∧ text.getLast?.any isBreak then [] else ['\n']

/-- A scalar with the line end behind it. -/
def renderScalar (indent : Nat) (text : List Char) : List Char :=
  let style := ScalarStyle.of false text
  style.render indent text ++ style.lineEnd text

/-- Whether a key can stand before its colon on one line. -/
def isSimpleKey (text : List Char) : Bool :=
  !text.any isBreak && (Text.utf8 text).length ≤ 128

/-- The indentation of a line. -/
def indentation (indent : Nat) : List Char := List.replicate indent ' '

/-- A key and the colon behind it. A key that does not fit on a line has a mark in front, and the
    colon is on the next line. -/
def renderKey (indent : Nat) (text : List Char) : List Char :=
  if isSimpleKey text then (ScalarStyle.of true text).render indent text ++ [':']
  else '?' :: ' ' :: renderScalar indent text ++ indentation indent ++ [':']

mutual

/-- A value behind a colon or a dash, with the line end behind it. The entries of a map start on a
    new line, unless the colon is `alone` on its line; the dashes of a list stand in the column of
    the key. -/
def renderValue (indent : Nat) (alone : Bool) : Json → List Char
  | .str text => ' ' :: renderScalar indent text.toList
  | .nat n => ' ' :: Nat.toDigits 10 n ++ ['\n']
  | .bool b => ' ' :: (if b then "true" else "false").toList ++ ['\n']
  | .arr items => if items.isEmpty then " []\n".toList else '\n' :: renderItems indent items
  | .obj members =>
    if members.isEmpty then " \x7b\x7d\n".toList
    else (if alone then ' ' else '\n') :: renderMembers (indent + 2) (!alone) members
  | _ => [' ', '~', '\n']

/-- The items of a list. -/
def renderItems (indent : Nat) : List Json → List Char
  | [] => []
  | item :: items =>
    indentation indent ++ '-' :: renderValue indent false item ++ renderItems indent items

/-- The entries of a map. The first one is indented when it starts a line. -/
def renderMembers (indent : Nat) (startsLine : Bool) : List (String × Json) → List Char
  | [] => []
  | (name, value) :: members =>
    (if startsLine then indentation indent else []) ++ renderKey indent name.toList ++
      renderValue indent (!isSimpleKey name.toList) value ++ renderMembers indent true members

end

/-- A document with the members of a tree. -/
def render (members : List (String × Json)) : String :=
  .ofList (renderMembers 0 true members)

end HelpAudit.Yaml
