import Mathlib.Algebra.Order.BigOperators.Group.List
import Mathlib.Algebra.Order.Ring.Nat
import Mathlib.Data.List.Flatten
import HelpAudit.Tree.Node

/-! The search for nodes lists a tree in pre-order. `preorder` is the plain recursion over children:
    a node, then the listings of its children one after the other. `scopeNodes` is the same recursion
    with nested scopes listed but not entered. The search keeps a stack and a bound on its steps
    instead; the number of nodes on the stack never exceeds the bound, so it ends with both lists. -/

namespace HelpAudit

/-! ### Counting children -/

theorem namedBlocksCount_eq_sum : ∀ blocks : List NamedBlock,
    namedBlocksCount blocks = ((blocks.map Node.namedBlock).map Node.count).sum
  | [] => rfl
  | block :: blocks => by
    simp only [namedBlocksCount, List.map_cons, List.sum_cons, Node.count,
      namedBlocksCount_eq_sum blocks]

theorem scriptBlocksCount_eq_sum : ∀ blocks : List ScriptBlock,
    scriptBlocksCount blocks = ((blocks.map Node.scriptBlock).map Node.count).sum
  | [] => rfl
  | block :: blocks => by
    simp only [scriptBlocksCount, List.map_cons, List.sum_cons, Node.count,
      scriptBlocksCount_eq_sum blocks]

theorem Statement.nodeCount_eq : ∀ statement : Statement, statement.nodeCount = statement.node.count
  | .function _ => by rw [Statement.nodeCount, Statement.node, Node.count]
  | .pipeline _ => by rw [Statement.nodeCount, Statement.node, Node.count]

theorem statementsCount_eq_sum : ∀ statements : List Statement,
    statementsCount statements = ((statements.map Statement.node).map Node.count).sum
  | [] => rfl
  | statement :: statements => by
    simp only [statementsCount, List.map_cons, List.sum_cons, Statement.nodeCount_eq,
      statementsCount_eq_sum statements]

theorem parameters_count_sum (ps : List Parameter) :
    ((ps.map Node.parameter).map Node.count).sum = ps.length := by
  induction ps with
  | nil => rfl
  | cons p ps ih =>
    simp only [List.map_cons, List.sum_cons, ih, Node.count, List.length_cons]
    omega

namespace Node

/-- A node counts one more than its children together. -/
theorem count_eq_children (node : Node) : node.count = 1 + (node.children.map count).sum := by
  cases node with
  | scriptBlock block =>
    obtain ⟨extent, params, blocks⟩ := block
    cases params with
    | none => simp [count, ScriptBlock.nodeCount, children, namedBlocksCount_eq_sum]
    | some params =>
      simp [count, ScriptBlock.nodeCount, children, namedBlocksCount_eq_sum, Nat.add_assoc]
  | functionDefinition f =>
    obtain ⟨name, kind, extent, parameters, body, comments⟩ := f
    simp only [count, FunctionDefinition.nodeCount, children, List.map_append, List.sum_append,
      parameters_count_sum, List.map_cons, List.map_nil, List.sum_cons, List.sum_nil]
    omega
  | paramBlock block => simp only [count, children, parameters_count_sum]
  | parameter p => rfl
  | namedBlock block =>
    obtain ⟨kind, unnamed, extent, statements⟩ := block
    simp only [count, NamedBlock.nodeCount, children, statementsCount_eq_sum]
  | pipeline p =>
    obtain ⟨extent, blocks⟩ := p
    simp only [count, Pipeline.nodeCount, children, scriptBlocksCount_eq_sum]

theorem count_lt_of_mem_children {node child : Node} (h : child ∈ node.children) :
    child.count < node.count := by
  rw [count_eq_children node]
  have := List.le_sum_of_mem (List.mem_map_of_mem (f := count) h)
  omega

/-- Induction from the children of a node to the node. -/
theorem induction_on_children {P : Node → Prop}
    (step : ∀ node : Node, (∀ child ∈ node.children, P child) → P node) (node : Node) : P node :=
  step node fun child _ => induction_on_children step child
termination_by node.count
decreasing_by exact count_lt_of_mem_children ‹_›

/-! ### The recursive listings -/

/-- The node and the nodes below it, each before what is below itself. -/
def preorder (node : Node) : List Node :=
  node :: node.children.attach.flatMap fun child => preorder child.1
termination_by node.count
decreasing_by exact count_lt_of_mem_children child.2

/-- The node and the nodes below it, nested scopes without what is inside them. -/
def scopeNodes (node : Node) : List Node :=
  node :: node.children.attach.flatMap fun child =>
    if node.opensScope child.1 then [child.1] else scopeNodes child.1
termination_by node.count
decreasing_by exact count_lt_of_mem_children child.2

theorem preorder_eq (node : Node) : node.preorder = node :: node.children.flatMap preorder := by
  rw [preorder, List.flatMap_subtype (fun _ _ => rfl), List.unattach_attach]

theorem scopeNodes_eq (node : Node) : node.scopeNodes = node :: node.children.flatMap fun child =>
    if node.opensScope child then [child] else child.scopeNodes := by
  rw [scopeNodes, List.flatMap_subtype (g := fun child =>
    if node.opensScope child then [child] else child.scopeNodes) (fun _ _ => rfl),
    List.unattach_attach]

/-- A property holds of a node and all below it when it holds of the node and, for each child, of the
    child and all below it. -/
theorem forall_mem_preorder {P : Node → Prop} {node : Node} :
    (∀ n ∈ node.preorder, P n) ↔ P node ∧ ∀ child ∈ node.children, ∀ n ∈ child.preorder, P n := by
  rw [preorder_eq]
  simp only [List.mem_cons, List.mem_flatMap, forall_eq_or_imp]
  refine and_congr_right fun _ => ⟨fun h child hc n hn => h n ⟨child, hc, hn⟩, ?_⟩
  rintro h n ⟨child, hc, hn⟩
  exact h child hc n hn

theorem scopeNodes_sublist_preorder (node : Node) : node.scopeNodes.Sublist node.preorder := by
  induction node using induction_on_children with
  | step node ih =>
    rw [scopeNodes_eq, preorder_eq]
    refine (List.Sublist.flatMap_right _ fun child hc => ?_).cons_cons _
    split
    · rw [preorder_eq]
      exact (List.nil_sublist _).cons_cons _
    · exact ih child hc

end Node

/-! ### The search with a stack -/

namespace Visit

/-- What the search lists from a waiting node on. -/
def listed (searchNested : Bool) (visit : Visit) : List Node :=
  if searchNested then visit.node.preorder
  else if visit.nested then [visit.node]
  else visit.node.scopeNodes

/-- A waiting node is listed before what waits below it. -/
theorem listed_eq (searchNested : Bool) (visit : Visit) :
    visit.listed searchNested =
      visit.node :: (visit.below searchNested).flatMap (listed searchNested) := by
  obtain ⟨node, nested⟩ := visit
  cases searchNested with
  | true => simp [listed, below, Node.preorder_eq node, List.flatMap_map]
  | false =>
    cases nested with
    | true => simp [listed, below]
    | false => simp [listed, below, Node.scopeNodes_eq node, List.flatMap_map]

/-- What waits below a node counts less than the node. -/
theorem sum_below_lt (searchNested : Bool) (visit : Visit) :
    ((visit.below searchNested).map (·.node.count)).sum < visit.node.count := by
  rw [below]
  split
  · rw [List.map_map, Node.count_eq_children]
    exact Nat.lt_one_add_iff.mpr (Nat.le_of_eq rfl)
  · rw [Node.count_eq_children, List.map_nil, List.sum_nil]
    omega

end Visit

/-- The search lists the waiting nodes one after the other, when its bound is no less than the number
    of nodes that wait and are below waiting ones. -/
theorem visitAll_eq_flatMap_listed (searchNested : Bool) : ∀ (fuel : Nat) (stack : List Visit),
    (stack.map (·.node.count)).sum ≤ fuel →
    visitAll searchNested fuel stack = stack.flatMap (Visit.listed searchNested)
  | 0, [], _ => rfl
  | 0, visit :: stack, h => by
    have := visit.sum_below_lt searchNested
    simp only [List.map_cons, List.sum_cons] at h
    omega
  | fuel + 1, [], _ => rfl
  | fuel + 1, visit :: stack, h => by
    have hlt := visit.sum_below_lt searchNested
    simp only [List.map_cons, List.sum_cons] at h
    rw [visitAll, visitAll_eq_flatMap_listed searchNested fuel, List.flatMap_append,
      List.flatMap_cons, Visit.listed_eq searchNested visit, List.cons_append]
    rw [List.map_append, List.sum_append]
    omega

namespace Node

theorem visited_true (node : Node) : node.visited true = node.preorder := by
  rw [visited, visitAll_eq_flatMap_listed _ _ _ (by simp)]
  simp [Visit.listed]

theorem visited_false (node : Node) : node.visited false = node.scopeNodes := by
  rw [visited, visitAll_eq_flatMap_listed _ _ _ (by simp)]
  simp [Visit.listed]

/-- Whether or not nested scopes are entered, the search lists nodes of the tree in pre-order. -/
theorem visited_sublist_preorder (node : Node) (searchNested : Bool) :
    (node.visited searchNested).Sublist node.preorder := by
  cases searchNested with
  | true => rw [visited_true]
  | false => rw [visited_false]; exact scopeNodes_sublist_preorder node

end Node

end HelpAudit
