import HelpAudit.Tree.Parser

/-! Trees seen through a view. A view shows extents and texts in its own way; whatever it shows, the
    comments that belong to functions and parameters are left out, and of a default value only whether
    there is one is kept. Two trees that look the same through a view have the same functions,
    parameters, blocks and statements, nested in the same way. -/

namespace HelpAudit

/-- How the extents and the texts of a tree are shown. -/
structure View where
  extent : Extent → Extent
  text : String → String

/-- All extents and texts as they are. -/
def View.full : View := ⟨id, id⟩

/-- No extents and no texts. -/
def View.outline : View := ⟨fun _ => ⟨none, 0, 0, 0, 0, 0, 0, ""⟩, fun _ => ""⟩

def Parameter.viewed (v : View) (p : Parameter) : Parameter where
  name := p.name
  extent := v.extent p.extent
  attributes := p.attributes.map v.text
  defaultValue := p.defaultValue.map fun _ => ""
  leadingComments := []

def ParamBlock.viewed (v : View) (b : ParamBlock) : ParamBlock where
  extent := v.extent b.extent
  attributes := b.attributes.map v.text
  parameters := b.parameters.map (Parameter.viewed v)

mutual

def ScriptBlock.viewed (v : View) : ScriptBlock → ScriptBlock
  | ⟨extent, params, blocks⟩ =>
    ⟨v.extent extent, params.map (ParamBlock.viewed v), namedBlocksViewed v blocks⟩

def NamedBlock.viewed (v : View) : NamedBlock → NamedBlock
  | ⟨kind, unnamed, extent, statements⟩ =>
    ⟨kind, unnamed, v.extent extent, statementsViewed v statements⟩

def FunctionDefinition.viewed (v : View) : FunctionDefinition → FunctionDefinition
  | ⟨name, kind, extent, parameters, body, _⟩ =>
    ⟨name, kind, v.extent extent, parameters.map (·.map (Parameter.viewed v)), body.viewed v, []⟩

def Statement.viewed (v : View) : Statement → Statement
  | .function definition => .function (definition.viewed v)
  | .pipeline ⟨extent, blocks⟩ => .pipeline ⟨v.extent extent, scriptBlocksViewed v blocks⟩

def scriptBlocksViewed (v : View) : List ScriptBlock → List ScriptBlock
  | [] => []
  | block :: blocks => block.viewed v :: scriptBlocksViewed v blocks

def namedBlocksViewed (v : View) : List NamedBlock → List NamedBlock
  | [] => []
  | block :: blocks => block.viewed v :: namedBlocksViewed v blocks

def statementsViewed (v : View) : List Statement → List Statement
  | [] => []
  | statement :: statements => statement.viewed v :: statementsViewed v statements

end

variable (v : View)

theorem scriptBlocksViewed_append : ∀ a b : List ScriptBlock,
    scriptBlocksViewed v (a ++ b) = scriptBlocksViewed v a ++ scriptBlocksViewed v b
  | [], _ => rfl
  | block :: a, b => by
    rw [List.cons_append, scriptBlocksViewed, scriptBlocksViewed_append a b, scriptBlocksViewed,
      List.cons_append]

theorem statementsViewed_eq_map : ∀ statements : List Statement,
    statementsViewed v statements = statements.map (Statement.viewed v)
  | [] => rfl
  | statement :: statements => by
    rw [statementsViewed, statementsViewed_eq_map statements, List.map_cons]

theorem Statement.viewed_extent (statement : Statement) :
    (statement.viewed v).extent = v.extent statement.extent := by
  cases statement with
  | function definition =>
    cases definition
    rfl
  | pipeline statement =>
    cases statement
    rfl

theorem ScriptBlock.viewed_extent (block : ScriptBlock) :
    (block.viewed v).extent = v.extent block.extent := by
  cases block
  rfl

end HelpAudit
