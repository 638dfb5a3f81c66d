import HelpAudit.Position
import HelpAudit.Token

/-! The tree of a script: functions, parameter blocks, named blocks and the script blocks inside
    other statements. Every other statement is kept as the text of its extent. -/

namespace HelpAudit

/-- Comments that stand together and may hold the help of a function, with their delimiters. -/
structure CommentGroup where
  comments : List String
  extent : Extent
  deriving DecidableEq

/-- One declared parameter. -/
structure Parameter where
  /-- The name without `$` and braces. -/
  name : String
  extent : Extent
  attributes : List String
  defaultValue : Option String
  /-- The comments between the parameter before and this one's name. -/
  leadingComments : List String
  deriving DecidableEq

/-- `param( … )` with the attributes before it. -/
structure ParamBlock where
  extent : Extent
  attributes : List String
  parameters : List Parameter
  deriving DecidableEq

mutual

/-- A whole script, a function's body or a braced block inside a statement. -/
structure ScriptBlock where
  extent : Extent
  paramBlock : Option ParamBlock
  namedBlocks : List NamedBlock

/-- A named block; a body without named blocks is an end block with `unnamed` set. -/
structure NamedBlock where
  kind : BlockKind
  unnamed : Bool
  extent : Extent
  statements : List Statement

/-- `function Name (…) { … }` and the comment groups that may be its help, preferred ones first. -/
structure FunctionDefinition where
  name : String
  kind : FunctionKind
  extent : Extent
  /-- The parameters in parentheses after the name, if there are parentheses. -/
  parameters : Option (List Parameter)
  body : ScriptBlock
  helpComments : List CommentGroup

/-- Any other statement, with the script blocks in it. -/
structure Pipeline where
  extent : Extent
  scriptBlocks : List ScriptBlock

/-- A statement of a block. -/
inductive Statement where
  | function (definition : FunctionDefinition)
  | pipeline (statement : Pipeline)

end

/-- Where the statement stands. -/
def Statement.extent : Statement → Extent
  | .function definition => definition.extent
  | .pipeline p => p.extent

/-- The first named block of a kind. -/
def ScriptBlock.namedBlock? (block : ScriptBlock) (kind : BlockKind) : Option NamedBlock :=
  block.namedBlocks.find? (·.kind = kind)

end HelpAudit
