import HelpAudit.ParseError
import HelpAudit.Token.Pattern

/-! Cutting a script into pieces, one lexeme after the other. `pieces` keeps everything, the text
    between tokens included, so nothing of the source is lost; `tokenize` keeps the tokens. -/

namespace HelpAudit

/-- A stretch of the source with what it is and the byte offset at which it starts. -/
structure Piece where
  lexeme : Lexeme
  text : List Char
  start : Nat
  deriving DecidableEq

/-- The token of a piece, if it is one. -/
def Piece.token? (p : Piece) : Option Token :=
  match p.lexeme with
  | .token kind => some (.startingAt p.start kind (.ofList p.text))
  | _ => none

/-- The pieces of a source, and where cutting came to a stop before its end. -/
structure Cut where
  pieces : List Piece
  stuck : Option Nat
  deriving DecidableEq

/-- Cuts the text from the byte offset `start` on. The first `skip` characters belong to the piece
    that was cut before. -/
def Cut.ofRest (skip start : Nat) : List Char → Cut
  | [] => ⟨[], none⟩
  | c :: cs =>
    match skip with
    | skip + 1 => Cut.ofRest skip (start + c.utf8Size) cs
    | 0 =>
      match Lexeme.whole? (c :: cs) with
      | none => ⟨[], some start⟩
      | some (lexeme, n) =>
        let rest := Cut.ofRest (n - 1) (start + c.utf8Size) cs
        ⟨⟨lexeme, (c :: cs).take n, start⟩ :: rest.pieces, rest.stuck⟩

/-- The pieces of a whole source. -/
def Cut.of (source : List Char) : Cut := Cut.ofRest 0 0 source

/-- The tokens of a source, or the place where no token starts. -/
def tokenize (source : List Char) : Except ParseError (List Token) :=
  let cut := Cut.of source
  match cut.stuck with
  | none => .ok (cut.pieces.filterMap Piece.token?)
  | some offset =>
    let snippet := ((Text.dropBytes? offset source).getD []).take 12
    .error (.ofOffset source offset (.unrecognized (.ofList snippet)))

end HelpAudit
