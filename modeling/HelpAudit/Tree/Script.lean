import HelpAudit.ParseError
import HelpAudit.Tree

/-! What the parser reads: a source with its tokens, and the small questions it asks about them. -/

namespace HelpAudit

/-- A source text, its file's name and its tokens. -/
structure Script where
  source : List Char
  file : Option String
  tokens : List Token

namespace Script

/-- The extent between two byte offsets. -/
def extent (script : Script) (start stop : Nat) : Extent :=
  .ofOffsets script.source script.file start stop

/-- The text between two byte offsets. -/
def text (script : Script) (start stop : Nat) : String := Text.sliceBytes script.source start stop

/-- An error at a byte offset. -/
def fault {α : Type} (script : Script) (offset : Nat) (cause : ParseError.Cause) :
    Except ParseError α :=
  .error (.ofOffset script.source offset cause)

/-- The tokens before those in `rest`, which are the last ones of the script. -/
def before (script : Script) (rest : List Token) : List Token :=
  script.tokens.take (script.tokens.length - rest.length)

end Script

/-- From the first token that is no trivia. -/
def skipTrivia (ts : List Token) : List Token := ts.dropWhile (·.kind.isTrivia)

/-- From the first token that is no trivia and no semicolon. -/
def skipSeparators (ts : List Token) : List Token := ts.dropWhile (·.kind.isSeparator)

/-- The kind of the first token that is no trivia. -/
def nextKind? (ts : List Token) : Option TokenKind := (skipTrivia ts).head?.map (·.kind)

/-- The named block that starts here: its keyword with a brace after it. -/
def namedBlockKind? : List Token → Option BlockKind
  | t :: ts =>
    match t.kind with
    | .keyword (.block kind) =>
      if nextKind? ts = some (.opening .brace) then some kind else none
    | _ => none
  | [] => none

end HelpAudit
