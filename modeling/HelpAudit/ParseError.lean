import HelpAudit.LineIndex

/-! What can be wrong with a script, and where. -/

namespace HelpAudit

/-- The causes for which a script has no tree. -/
inductive ParseError.Cause where
  /-- No token starts here, or one starts that never ends. -/
  | unrecognized (snippet : String)
  | unexpected (token : String)
  | unexpectedInNamedBlocks (token : String)
  | missingBrace
  | missingParen
  | missingCloser (opener : String)
  | missingFunctionName
  | missingFunctionBody (name : String)
  /-- The step bound of the parser ran out; it is set so high that no script reaches it. -/
  | exhausted
  deriving DecidableEq

/-- A cause and its place. -/
structure ParseError where
  cause : ParseError.Cause
  position : Position
  deriving DecidableEq

namespace ParseError

/-- The wording of a cause. -/
def Cause.message : Cause → String
  | .unrecognized snippet => s!"unrecognized or unterminated input starting with '{snippet}'"
  | .unexpected token => s!"unexpected '{token}'"
  | .unexpectedInNamedBlocks token => s!"unexpected '{token}' where a named block was expected"
  | .missingBrace => "missing closing '\x7d'"
  | .missingParen => "missing closing ')'"
  | .missingCloser opener => s!"missing closing for '{opener}'"
  | .missingFunctionName => "missing function name"
  | .missingFunctionBody name => s!"missing body of function '{name}'"
  | .exhausted => "too many steps"

/-- The error at a byte offset of a source. -/
def ofOffset (source : List Char) (offset : Nat) (cause : Cause) : ParseError :=
  ⟨cause, .ofOffset source offset⟩

/-- The wording with the place. -/
def message (e : ParseError) : String := s!"parse error at {e.position.display}: {e.cause.message}"

end ParseError

end HelpAudit
