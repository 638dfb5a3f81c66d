import HelpAudit.Tree

/-! The nodes of a tree under one type, their children, and the search for nodes. The search keeps
    a stack of nodes still to visit, so it lists a node before what is below it. It may be told not
    to look into nested scopes: functions and the script blocks of other statements. -/

namespace HelpAudit

/-- The kinds of nodes. -/
inductive NodeKind where
  | scriptBlock
  | functionDefinition
  | paramBlock
  | parameter
  | namedBlock
  | pipeline
  deriving DecidableEq

/-- Any node of a tree. -/
inductive Node where
  | scriptBlock (block : ScriptBlock)
  | functionDefinition (definition : FunctionDefinition)
  | paramBlock (block : ParamBlock)
  | parameter (declared : Parameter)
  | namedBlock (block : NamedBlock)
  | pipeline (statement : Pipeline)

/-- A statement as a node. -/
def Statement.node : Statement → Node
  | .function definition => .functionDefinition definition
  | .pipeline statement => .pipeline statement

namespace Node

def kind : Node → NodeKind
  | .scriptBlock _ => .scriptBlock
  | .functionDefinition _ => .functionDefinition
  | .paramBlock _ => .paramBlock
  | .parameter _ => .parameter
  | .namedBlock _ => .namedBlock
  | .pipeline _ => .pipeline

def extent : Node → Extent
  | .scriptBlock block => block.extent
  | .functionDefinition definition => definition.extent
  | .paramBlock block => block.extent
  | .parameter declared => declared.extent
  | .namedBlock block => block.extent
  | .pipeline statement => statement.extent

/-- The nodes directly below, in the order of the source. -/
def children : Node → List Node
  | .scriptBlock block => (block.paramBlock.map .paramBlock).toList ++ block.namedBlocks.map .namedBlock
  | .functionDefinition definition =>
    (definition.parameters.getD []).map .parameter ++ [.scriptBlock definition.body]
  | .paramBlock block => block.parameters.map .parameter
  | .parameter _ => []
  | .namedBlock block => block.statements.map Statement.node
  | .pipeline statement => statement.scriptBlocks.map .scriptBlock

/-- Whether `child`, found below `parent`, is a scope of its own. -/
def opensScope (parent child : Node) : Bool :=
  match parent, child with
  | _, .functionDefinition _ => true
  | .pipeline _, .scriptBlock _ => true
  | _, _ => false

end Node

/-! ### The number of nodes -/

mutual

/-- The number of nodes of a script block, itself included. -/
def ScriptBlock.nodeCount : ScriptBlock → Nat
  | ⟨_, params, blocks⟩ =>
    1 + (params.map (1 + ·.parameters.length)).getD 0 + namedBlocksCount blocks

/-- The number of nodes of a named block, itself included. -/
def NamedBlock.nodeCount : NamedBlock → Nat
  | ⟨_, _, _, statements⟩ => 1 + statementsCount statements

/-- The number of nodes of a function definition, itself included. -/
def FunctionDefinition.nodeCount : FunctionDefinition → Nat
  | ⟨_, _, _, parameters, body, _⟩ => 1 + (parameters.getD []).length + body.nodeCount

/-- The number of nodes of another statement, itself included. -/
def Pipeline.nodeCount : Pipeline → Nat
  | ⟨_, blocks⟩ => 1 + scriptBlocksCount blocks

/-- The number of nodes of a statement, itself included. -/
def Statement.nodeCount : Statement → Nat
  | .function definition => definition.nodeCount
  | .pipeline statement => statement.nodeCount

/-- The number of nodes of all script blocks of a list. -/
def scriptBlocksCount : List ScriptBlock → Nat
  | [] => 0
  | block :: blocks => block.nodeCount + scriptBlocksCount blocks

/-- The number of nodes of all named blocks of a list. -/
def namedBlocksCount : List NamedBlock → Nat
  | [] => 0
  | block :: blocks => block.nodeCount + namedBlocksCount blocks

/-- The number of nodes of all statements of a list. -/
def statementsCount : List Statement → Nat
  | [] => 0
  | statement :: statements => statement.nodeCount + statementsCount statements

end

/-- The number of nodes from a node down, itself included. -/
def Node.count : Node → Nat
  | .scriptBlock block => block.nodeCount
  | .functionDefinition definition => definition.nodeCount
  | .paramBlock block => 1 + block.parameters.length
  | .parameter _ => 1
  | .namedBlock block => block.nodeCount
  | .pipeline statement => statement.nodeCount

/-! ### Search -/

/-- A node that waits to be visited, and whether it was found as a nested scope. -/
structure Visit where
  node : Node
  nested : Bool

/-- The nodes to visit below a visited one: none, when nested scopes are left out and it is one. -/
def Visit.below (searchNested : Bool) (visit : Visit) : List Visit :=
  if searchNested || !visit.nested then
    visit.node.children.map fun child => ⟨child, visit.node.opensScope child⟩
  else []

/-- Visits the nodes on the stack and what is below them, as many as `fuel` allows. -/
def visitAll (searchNested : Bool) : (fuel : Nat) → List Visit → List Node
  | 0, _ => []
  | _ + 1, [] => []
  | fuel + 1, visit :: stack =>
    visit.node :: visitAll searchNested fuel (visit.below searchNested ++ stack)

namespace Node

/-- The node and the nodes below it, each before what is below itself. -/
def visited (node : Node) (searchNested : Bool) : List Node :=
  visitAll searchNested node.count [⟨node, false⟩]

/-- The nodes from `node` down for which `p` holds. -/
def findAll (node : Node) (p : Node → Bool) (searchNested : Bool) : List Node :=
  (node.visited searchNested).filter p

/-- The first node from `node` down for which `p` holds. -/
def find? (node : Node) (p : Node → Bool) (searchNested : Bool) : Option Node :=
  (node.visited searchNested).find? p

end Node

end HelpAudit
