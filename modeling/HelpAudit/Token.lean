import HelpAudit.Text.Bytes

/-! Tokens of a PowerShell script: keywords that open functions and blocks, brackets, comments,
    strings, variables and newlines. Everything else is a word. -/

namespace HelpAudit

/-- The three ways to declare a function. -/
inductive FunctionKind where
  | function
  | filter
  | workflow
  deriving DecidableEq

/-- The keyword that declares it. -/
def FunctionKind.keyword : FunctionKind → String
  | .function => "function"
  | .filter => "filter"
  | .workflow => "workflow"

/-- The blocks that may divide the body of a script block. -/
inductive BlockKind where
  | beginBlock
  | processBlock
  | endBlock
  | dynamicParamBlock
  | cleanBlock
  deriving DecidableEq

/-- The keyword that opens the block. -/
def BlockKind.keyword : BlockKind → String
  | .beginBlock => "begin"
  | .processBlock => "process"
  | .endBlock => "end"
  | .dynamicParamBlock => "dynamicparam"
  | .cleanBlock => "clean"

/-- A keyword declares a function, opens a parameter block or opens a named block. -/
inductive Keyword where
  | declare (kind : FunctionKind)
  | param
  | block (kind : BlockKind)
  deriving DecidableEq

namespace Keyword

/-- The keyword in lower case. -/
def text : Keyword → String
  | .declare kind => kind.keyword
  | .param => "param"
  | .block kind => kind.keyword

/-- All keywords. -/
def all : List Keyword :=
  [.declare .function, .declare .filter, .declare .workflow, .param, .block .dynamicParamBlock,
    .block .beginBlock, .block .processBlock, .block .endBlock, .block .cleanBlock]

end Keyword

/-- What opens a group. -/
inductive Opener where
  | brace
  | paren
  | bracket
  | atParen
  | atBrace
  | dollarParen
  deriving DecidableEq

/-- The opening characters. -/
def Opener.text : Opener → String
  | .brace => "\x7b"
  | .paren => "("
  | .bracket => "["
  | .atParen => "@("
  | .atBrace => "@\x7b"
  | .dollarParen => "$("

/-- What closes a group. -/
inductive Closer where
  | brace
  | paren
  | bracket
  deriving DecidableEq

/-- The closing character. -/
def Closer.text : Closer → String
  | .brace => "\x7d"
  | .paren => ")"
  | .bracket => "]"

/-- Comments run to the end of the line, or from `<#` to `#>`. -/
inductive CommentStyle where
  | line
  | block
  deriving DecidableEq

/-- Quoted strings and here-strings, literal or expanding. -/
inductive StringStyle where
  | single
  | double
  | hereSingle
  | hereDouble
  deriving DecidableEq

/-- The kinds of tokens. -/
inductive TokenKind where
  | keyword (word : Keyword)
  | opening (opener : Opener)
  | closing (closer : Closer)
  | comma
  | semicolon
  | equals
  | pipe
  | comment (style : CommentStyle)
  | string (style : StringStyle)
  | var
  | splat
  | word
  | other
  | newline
  deriving DecidableEq

namespace TokenKind

/-- Comments of either style. -/
def isComment : TokenKind → Bool
  | .comment _ => true
  | _ => false

/-- Newlines and comments, which never carry code. -/
def isTrivia : TokenKind → Bool
  | .newline => true
  | kind => kind.isComment

/-- Trivia and semicolons, which separate statements. -/
def isSeparator : TokenKind → Bool
  | .semicolon => true
  | kind => kind.isTrivia

/-- Opening brackets of any shape. -/
def opensGroup : TokenKind → Bool
  | .opening _ => true
  | _ => false

/-- Closing brackets of any shape. -/
def closesGroup : TokenKind → Bool
  | .closing _ => true
  | _ => false

/-- What may name a function: a word, and any keyword too. -/
def isNameLike : TokenKind → Bool
  | .word => true
  | .keyword _ => true
  | _ => false

/-- How a kind is shown: fixed tokens by their text, the others by a class in capitals. -/
def display : TokenKind → String
  | .keyword k => k.text
  | .opening opener => opener.text
  | .closing closer => closer.text
  | .comma => ","
  | .semicolon => ";"
  | .equals => "="
  | .pipe => "|"
  | .comment _ => "COMMENT"
  | .string _ => "STRING"
  | .var => "VARIABLE"
  | .splat => "SPLAT"
  | .word => "WORD"
  | .other => "OTHER"
  | .newline => "NEWLINE"

end TokenKind

/-- A token with its text and the byte offsets at which it starts and just after which it ends. -/
structure Token where
  kind : TokenKind
  value : String
  start : Nat
  stop : Nat
  deriving DecidableEq

/-- The token with a text that starts at a byte offset. -/
def Token.startingAt (start : Nat) (kind : TokenKind) (value : String) : Token :=
  ⟨kind, value, start, start + value.utf8ByteSize⟩

end HelpAudit
