/-! Places in a script: a position is a line, a column and a byte offset, an extent the stretch
    between two of them with its text. Lines and columns count from 1, columns in characters. -/

namespace HelpAudit

/-- A place in a text. -/
structure Position where
  line : Nat
  column : Nat
  offset : Nat
  deriving DecidableEq

/-- `line:column`. -/
def Position.display (p : Position) : String := s!"{p.line}:{p.column}"

/-- A stretch of a script, from its first character to just after its last, with its text. -/
structure Extent where
  file : Option String
  startLine : Nat
  startColumn : Nat
  endLine : Nat
  endColumn : Nat
  startOffset : Nat
  endOffset : Nat
  text : String
  deriving DecidableEq

namespace Extent

/-- The extent between two positions. -/
def between (start stop : Position) (text : String) (file : Option String) : Extent where
  file := file
  startLine := start.line
  startColumn := start.column
  endLine := stop.line
  endColumn := stop.column
  startOffset := start.offset
  endOffset := stop.offset
  text := text

/-- Where the extent starts. -/
def start (e : Extent) : Position := ⟨e.startLine, e.startColumn, e.startOffset⟩

/-- Where the extent ends. -/
def stop (e : Extent) : Position := ⟨e.endLine, e.endColumn, e.endOffset⟩

/-- `line:column-line:column`, after `file:` when the extent names its file. -/
def display (e : Extent) : String :=
  let range := s!"{e.startLine}:{e.startColumn}-{e.endLine}:{e.endColumn}"
  match e.file with
  | some file => s!"{file}:{range}"
  | none => range

end Extent

end HelpAudit
