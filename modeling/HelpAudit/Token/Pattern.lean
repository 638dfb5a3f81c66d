import HelpAudit.Text.Blank
import HelpAudit.Text.Word
import HelpAudit.Token

/-! The patterns of the tokens. A pattern is a function that reads the characters from some place
    on and answers the length of the longest match that starts there. Where several patterns match,
    the longest match counts, and of equally long ones the pattern listed first. -/

namespace HelpAudit

/-- What a piece of the source text is: a token, or text between tokens that leaves no trace. -/
inductive Lexeme where
  | token (kind : TokenKind)
  | blanks
  | continuation
  deriving DecidableEq

namespace Lexeme

/-! ### Character classes -/

/-- The quotes of literal strings: the ASCII apostrophe and four typographic forms. -/
def isSingleQuote (c : Char) : Bool :=
  c == '\x27' || c == '‘' || c == '’' || c == '‚' || c == '‛'

/-- The quotes of expanding strings: the ASCII quotation mark and three typographic forms. -/
def isDoubleQuote (c : Char) : Bool :=
  c == '\x22' || c == '“' || c == '”' || c == '„'

/-- Blanks between tokens. Not all white space is among them, and U+200B and U+FEFF, which are no
    white space, are. -/
def isGap (c : Char) : Bool :=
  c == ' ' || c == '\t' || c == '\x0c' || c == '\r' || c == '\u00a0' ||
    (0x2000 ≤ c.toNat && c.toNat ≤ 0x200B) || c == '\u3000' || c == '\ufeff'

/-- Punctuation that ends a word. -/
def isDelimiter (c : Char) : Bool :=
  c == '\x7b' || c == '\x7d' || c == '(' || c == ')' || c == '[' || c == ']' || c == ',' ||
    c == ';' || c == '=' || c == '|' || c == '#' || c == '\x60' || c == '$' || c == '@'

/-- Characters of a word: no white space, no quote and no delimiter. -/
def isWordPart (c : Char) : Bool :=
  !(Text.isBlank c || isDelimiter c || isSingleQuote c || isDoubleQuote c)

/-! ### Matching -/

/-- The length of a match, when it has at least one character. -/
def nonempty (n : Nat) : Option Nat := if n = 0 then none else some n

/-- The longest run of characters of a class. -/
def run (p : Char → Bool) (cs : List Char) : Nat := (cs.takeWhile p).length

/-- A fixed text. -/
def literal (text : String) (cs : List Char) : Option Nat :=
  if text.toList.isPrefixOf cs then some text.length else none

/-- Whether a character stands for the lower-case ASCII letter `letter` in a keyword, whatever its
    case; the Kelvin sign is a `k` and the long s an `s`. -/
def folds (letter c : Char) : Bool :=
  c.toLower == letter || (letter == 'k' && c == '\u212a') || (letter == 's' && c == '\u017f')

/-- Whether the text starts with `word` in any case; the answer is what follows. -/
def afterFolded : List Char → List Char → Option (List Char)
  | [], cs => some cs
  | _ :: _, [] => none
  | w :: ws, c :: cs => if folds w c then afterFolded ws cs else none

/-- A keyword in any case. A character outside ASCII right after it makes it an ordinary word. -/
def keyword (word : Keyword) (cs : List Char) : Option Nat :=
  match afterFolded word.text.toList cs with
  | some (c :: _) => if c.toNat < 0x80 then some word.text.length else none
  | some [] => some word.text.length
  | none => none

/-- A line feed, possibly after a carriage return. -/
def lineEnd : List Char → Option Nat
  | '\n' :: _ => some 1
  | '\r' :: '\n' :: _ => some 2
  | _ => none

/-- From `#` up to the end of the line. -/
def lineComment : List Char → Option Nat
  | '#' :: cs => some (run (fun c => c != '\r' && c != '\n') cs + 1)
  | _ => none

/-- A literal string: everything up to the next quote of its kind. -/
def singleQuoted : List Char → Option Nat
  | c :: cs =>
    if isSingleQuote c then
      match cs.dropWhile (!isSingleQuote ·) with
      | _ :: _ => some (run (!isSingleQuote ·) cs + 2)
      | [] => none
    else none
  | [] => none

/-- The rest of an expanding string, the closing quote included: a backtick takes the character
    after it out of consideration. -/
def doubleQuotedRest : List Char → Option Nat
  | [] => none
  | '\x60' :: _ :: cs => (doubleQuotedRest cs).map (· + 2)
  | c :: cs =>
    if isDoubleQuote c then some 1
    else if c == '\x60' then none
    else (doubleQuotedRest cs).map (· + 1)

/-- An expanding string. -/
def doubleQuoted : List Char → Option Nat
  | c :: cs => if isDoubleQuote c then (doubleQuotedRest cs).map (· + 1) else none
  | [] => none

/-- The first line of a here-string: `@`, the ASCII quote and the line's end. -/
def hereHeader (quote : Char) : List Char → Option Nat
  | '@' :: c :: cs => if c = quote then (lineEnd cs).map (· + 2) else none
  | _ => none

/-- A variable's name, possibly after a scope and a colon, or one of three special characters. -/
def plainVariable : List Char → Option Nat
  | '$' :: c :: cs =>
    if Text.isWord c then
      let name := run Text.isWord cs
      match cs.drop name with
      | ':' :: member => some (name + run Text.isWord member + 3)
      | _ => some (name + 2)
    else if c == '$' || c == '?' || c == '^' then some 2
    else none
  | _ => none

/-- Whether the text starts with `$` and an opening brace. -/
def startsBraced : List Char → Bool
  | '$' :: '\x7b' :: _ => true
  | _ => false

/-- A variable in braces, with any text up to the closing brace. -/
def bracedVariable : List Char → Option Nat
  | '$' :: '\x7b' :: cs =>
    match cs.dropWhile (· != '\x7d') with
    | _ :: _ => some (run (· != '\x7d') cs + 3)
    | [] => none
  | _ => none

/-- `@` and a name. -/
def splatted : List Char → Option Nat
  | '@' :: cs => (nonempty (run Text.isWord cs)).map (· + 1)
  | _ => none

/-- One of the three characters that mean something only with what follows them. -/
def lone : List Char → Option Nat
  | c :: _ => if c == '@' || c == '$' || c == '\x60' then some 1 else none
  | [] => none

/-- A backtick at the end of a line. -/
def lineContinuation : List Char → Option Nat
  | '\x60' :: cs => (lineEnd cs).map (· + 1)
  | _ => none

/-- All patterns, in order of preference among equally long matches. -/
def patterns : List (Lexeme × (List Char → Option Nat)) :=
  (Keyword.all.map fun word => (.token (.keyword word), keyword word)) ++
  [ (.token (.opening .brace), literal Opener.brace.text),
    (.token (.closing .brace), literal Closer.brace.text),
    (.token (.opening .paren), literal Opener.paren.text),
    (.token (.closing .paren), literal Closer.paren.text),
    (.token (.opening .bracket), literal Opener.bracket.text),
    (.token (.closing .bracket), literal Closer.bracket.text),
    (.token (.opening .atParen), literal Opener.atParen.text),
    (.token (.opening .atBrace), literal Opener.atBrace.text),
    (.token (.opening .dollarParen), literal Opener.dollarParen.text),
    (.token .comma, literal ","),
    (.token .semicolon, literal ";"),
    (.token .equals, literal "="),
    (.token .pipe, literal "|"),
    (.token (.comment .line), lineComment),
    (.token (.comment .block), literal "<#"),
    (.token (.string .single), singleQuoted),
    (.token (.string .double), doubleQuoted),
    (.token (.string .hereSingle), hereHeader '\x27'),
    (.token (.string .hereDouble), hereHeader '\x22'),
    (.token .var, plainVariable),
    (.token .var, bracedVariable),
    (.token .splat, splatted),
    (.blanks, fun cs => nonempty (run isGap cs)),
    (.continuation, lineContinuation),
    (.token .newline, lineEnd),
    (.token .word, fun cs => nonempty (run isWordPart cs)),
    (.token .other, lone) ]

/-- The first of the longest matches. -/
def firstLongest {α : Type} : List (α × Nat) → Option (α × Nat)
  | [] => none
  | x :: xs =>
    match firstLongest xs with
    | some y => if x.2 < y.2 then some y else some x
    | none => some x

/-- The matches of all patterns at the start of the text. -/
def candidates (cs : List Char) : List (Lexeme × Nat) :=
  patterns.filterMap fun pattern => (pattern.2 cs).map (pattern.1, ·)

/-- The match at the start of the text. A variable in braces that is never closed has none, although
    its first character alone would match. -/
def head? (cs : List Char) : Option (Lexeme × Nat) :=
  if startsBraced cs && (bracedVariable cs).isNone then none else firstLongest (candidates cs)

/-! ### Tokens that run on past their first characters -/

/-- The number of characters up to and with the first occurrence of `needle`. -/
def through (needle : List Char) : List Char → Option Nat
  | [] => if needle.isEmpty then some 0 else none
  | c :: cs =>
    if needle.isPrefixOf (c :: cs) then some needle.length
    else (through needle cs).map (· + 1)

/-- The body and the terminator of a here-string, whose terminator stands at the start of a line. -/
def hereBody (quote : Char) (cs : List Char) : Option Nat :=
  if [quote, '@'].isPrefixOf cs then some 2 else through ['\n', quote, '@'] cs

/-- How many characters after its first match a lexeme takes as well: block comments and
    here-strings run to their end marks, and have no end when the mark is missing. -/
def rest? : Lexeme → List Char → Option Nat
  | .token (.comment .block), cs => through ['#', '>'] cs
  | .token (.string .hereSingle), cs => hereBody '\x27' cs
  | .token (.string .hereDouble), cs => hereBody '\x22' cs
  | _, _ => some 0

/-- The lexeme at the start of the text with its whole length. -/
def whole? (cs : List Char) : Option (Lexeme × Nat) :=
  (head? cs).bind fun (lexeme, n) => (lexeme.rest? (cs.drop n)).map fun more => (lexeme, n + more)

end Lexeme

end HelpAudit
