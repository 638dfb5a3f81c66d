import HelpAudit.Proofs.NodeOrder

/-! What a search finds, and where. A place in a tree is the list of child numbers on the way down to it,
    so that pre-order is the order of these lists. The search visits each place once and in order: all
    of them, or those that no way through a nested scope leads to. The run of its stack is given without
    a bound on the number of steps, and every run ends with the nodes that the bounded search finds. -/

namespace HelpAudit

namespace Node

/-! ### Places -/

/-- A node that is a scope of its own below its parent: a function, or a script block of another
    statement. -/
def IsNested (parent child : Node) : Prop :=
  child.kind = .functionDefinition ∨ parent.kind = .pipeline ∧ child.kind = .scriptBlock

instance (parent child : Node) : Decidable (parent.IsNested child) := inferInstanceAs (Decidable (_ ∨ _))

theorem opensScope_iff {parent child : Node} : parent.opensScope child = true ↔ parent.IsNested child := by
  cases parent <;> cases child <;> simp [opensScope, IsNested, kind]

/-- The node at a place below `node`. Without nested scopes, no place is inside of one; `node` itself is
    always entered. -/
def at? (searchNested : Bool) (node : Node) : List Nat → Option Node
  | [] => some node
  | i :: place => node.children[i]?.bind fun child =>
    if place = [] ∨ searchNested = true ∨ ¬ node.IsNested child then at? searchNested child place
    else none

/-- The recursive listing that a search follows. -/
def listing (searchNested : Bool) (node : Node) : List Node :=
  if searchNested then node.preorder else node.scopeNodes

/-- A node comes before what is below it, and of a child that is not entered only the child is listed. -/
theorem listing_eq (searchNested : Bool) (node : Node) :
    node.listing searchNested = node :: node.children.flatMap fun child =>
      if searchNested = true ∨ ¬ node.IsNested child then child.listing searchNested else [child] := by
  cases searchNested with
  | true => simpa [listing] using preorder_eq node
  | false =>
    rw [listing, if_neg Bool.false_ne_true, scopeNodes_eq]
    refine congrArg (node :: ·) (List.flatMap_congr fun child _ => ?_)
    by_cases hnested : node.IsNested child
    · rw [if_pos (opensScope_iff.mpr hnested), if_neg (by simp [hnested])]
    · rw [if_neg (mt opensScope_iff.mp hnested), if_pos (.inr hnested)]
      rfl

end Node

/-- The list has the node of every place once, in the order of places. -/
def ListsPlaces (nodeAt : List Nat → Option Node) (nodes : List Node) : Prop :=
  ∃ placed : List (List Nat × Node), placed.Pairwise (fun a b => a.1 < b.1) ∧
    (∀ place node, (place, node) ∈ placed ↔ nodeAt place = some node) ∧ nodes = placed.map (·.2)

/-- The node at a place below one of the nodes of a list, which the first number of the place chooses. -/
def atBelow? (nodeAt : Node → List Nat → Option Node) (nodes : List Node) : List Nat → Option Node
  | [] => none
  | i :: place => nodes[i]?.bind (nodeAt · place)

/-- The place below the next node of a list. -/
def nextPlace : List Nat → List Nat
  | [] => []
  | i :: place => (i + 1) :: place

theorem nextPlace_lt {a b : List Nat} (h : a < b) : nextPlace a < nextPlace b := by
  cases a with
  | nil =>
    cases b with
    | nil => exact absurd h (List.not_lt_nil _)
    | cons j b => exact List.nil_lt_cons ..
  | cons i a =>
    cases b with
    | nil => exact absurd h (List.not_lt_nil _)
    | cons j b =>
      rw [nextPlace, nextPlace, List.cons_lt_cons_iff, Nat.succ_lt_succ_iff, Nat.succ_inj]
      exact List.cons_lt_cons_iff.mp h

namespace ListsPlaces

variable {nodeAt : List Nat → Option Node} {nodes : List Node}

theorem nil (h : ∀ place, nodeAt place = none) : ListsPlaces nodeAt [] :=
  ⟨[], .nil, fun place _ => iff_of_false List.not_mem_nil (by simp [h place]), rfl⟩

/-- Nodes that are left out leave their places out. -/
theorem filter (h : ListsPlaces nodeAt nodes) (p : Node → Bool) :
    ListsPlaces (fun place => (nodeAt place).filter p) (nodes.filter p) := by
  obtain ⟨placed, hsorted, hmem, rfl⟩ := h
  refine ⟨placed.filter (p ·.2), hsorted.filter _, fun place node => ?_, ?_⟩
  · rw [List.mem_filter, hmem, Option.filter_eq_some_iff]
  · rw [List.filter_map]
    rfl

theorem mem_map_zero {placed : List (List Nat × Node)} {place : List Nat} {node : Node} :
    (place, node) ∈ placed.map (fun q => (0 :: q.1, q.2)) ↔
      ∃ way, place = 0 :: way ∧ (way, node) ∈ placed := by
  rw [List.mem_map]
  constructor
  · rintro ⟨⟨way, other⟩, hq, heq⟩
    cases heq
    exact ⟨way, rfl, hq⟩
  · rintro ⟨way, rfl, hq⟩
    exact ⟨_, hq, rfl⟩

theorem mem_map_nextPlace {placed : List (List Nat × Node)} (hstart : ∀ node, ([], node) ∉ placed)
    {place : List Nat} {node : Node} :
    (place, node) ∈ placed.map (fun q => (nextPlace q.1, q.2)) ↔
      ∃ i way, place = (i + 1) :: way ∧ (i :: way, node) ∈ placed := by
  rw [List.mem_map]
  constructor
  · rintro ⟨⟨_ | ⟨i, way⟩, other⟩, hq, heq⟩
    · exact absurd hq (hstart other)
    · cases heq
      exact ⟨i, way, rfl, hq⟩
  · rintro ⟨i, way, rfl, hq⟩
    exact ⟨_, hq, rfl⟩

/-- The places of one more node in front. -/
theorem cons_atBelow {nodeAt : Node → List Nat → Option Node} {node : Node} {nodes first others : List Node}
    (hfirst : ListsPlaces (nodeAt node) first) (hothers : ListsPlaces (atBelow? nodeAt nodes) others) :
    ListsPlaces (atBelow? nodeAt (node :: nodes)) (first ++ others) := by
  obtain ⟨placed, hsorted, hmem, rfl⟩ := hfirst
  obtain ⟨later, hsorted', hmem', rfl⟩ := hothers
  have hstart : ∀ other, ([], other) ∉ later := by
    intro other hin
    cases (hmem' _ _).mp hin
  refine ⟨placed.map (fun q => (0 :: q.1, q.2)) ++ later.map (fun q => (nextPlace q.1, q.2)),
    List.pairwise_append.mpr ⟨?_, ?_, ?_⟩, fun place other => ?_, ?_⟩
  · exact List.pairwise_map.mpr (hsorted.imp fun h => List.cons_lt_cons_iff.mpr (.inr ⟨rfl, h⟩))
  · exact List.pairwise_map.mpr (hsorted'.imp nextPlace_lt)
  · rintro ⟨place, other⟩ hin ⟨place', other'⟩ hin'
    obtain ⟨way, rfl, -⟩ := mem_map_zero.mp hin
    obtain ⟨i, way', rfl, -⟩ := (mem_map_nextPlace hstart).mp hin'
    exact List.cons_lt_cons_iff.mpr (.inl (Nat.succ_pos i))
  · -- the first number of a place tells which of the two parts it is in
    rw [List.mem_append, mem_map_zero, mem_map_nextPlace hstart]
    rcases place with _ | ⟨_ | i, place⟩ <;> simp [atBelow?, hmem, hmem']
  · rw [List.map_append, List.map_map, List.map_map]
    rfl

theorem flatMap {nodeAt : Node → List Nat → Option Node} {listed : Node → List Node} :
    ∀ {nodes : List Node}, (∀ node ∈ nodes, ListsPlaces (nodeAt node) (listed node)) →
      ListsPlaces (atBelow? nodeAt nodes) (nodes.flatMap listed)
  | [], _ => nil fun place => by cases place <;> rfl
  | node :: nodes, h => by
    obtain ⟨hnode, hnodes⟩ := List.forall_mem_cons.mp h
    exact cons_atBelow hnode (flatMap hnodes)

/-- A node stands before the places below it. -/
theorem cons {below : List Nat → Option Node} (h : ListsPlaces below nodes) {node : Node}
    (hstart : below [] = none) (hnode : nodeAt [] = some node)
    (hbelow : ∀ i place, nodeAt (i :: place) = below (i :: place)) : ListsPlaces nodeAt (node :: nodes) := by
  obtain ⟨placed, hsorted, hmem, rfl⟩ := h
  refine ⟨([], node) :: placed, List.pairwise_cons.mpr ⟨?_, hsorted⟩, fun place other => ?_, rfl⟩
  · rintro ⟨place, other⟩ hin
    cases place with
    | nil => cases hstart.symm.trans ((hmem _ _).mp hin)
    | cons i place => exact List.nil_lt_cons ..
  · rw [List.mem_cons, hmem]
    cases place with
    | nil => simp [hstart, hnode, eq_comm]
    | cons i place => simp [hbelow]

end ListsPlaces

/-- The listing has every place that is to be visited. -/
theorem Node.listsPlaces (searchNested : Bool) (node : Node) :
    ListsPlaces (node.at? searchNested) (node.listing searchNested) := by
  induction node using Node.induction_on_children with
  | step node ih =>
    have hchildren : ∀ child ∈ node.children, ListsPlaces
        (fun place => if place = [] ∨ searchNested = true ∨ ¬ node.IsNested child then
          child.at? searchNested place else none)
        (if searchNested = true ∨ ¬ node.IsNested child then child.listing searchNested
          else [child]) := by
      intro child hchild
      by_cases henter : searchNested = true ∨ ¬ node.IsNested child
      · simpa [henter] using ih child hchild
      · -- a nested scope that is not entered stands alone
        rw [if_neg henter]
        refine ListsPlaces.cons (ListsPlaces.nil fun _ => rfl) rfl (if_pos (.inl rfl)) fun i place => ?_
        exact if_neg (by simpa using henter)
    rw [Node.listing_eq]
    exact (ListsPlaces.flatMap hchildren).cons rfl rfl fun _ _ => rfl

/-! ### Runs of the search -/

/-- A run of the search from a stack of waiting nodes until none is left, with the nodes it finds. The
    top of the stack is its head. -/
inductive Yields (p : Node → Bool) (searchNested : Bool) : List Visit → List Node → Prop where
  | finish : Yields p searchNested [] []
  | hit {visit stack found} :
    p visit.node = true →
    Yields p searchNested (visit.below searchNested ++ stack) found →
    Yields p searchNested (visit :: stack) (visit.node :: found)
  | miss {visit stack found} :
    p visit.node = false →
    Yields p searchNested (visit.below searchNested ++ stack) found →
    Yields p searchNested (visit :: stack) found

section Yields

variable {p : Node → Bool} {searchNested : Bool}

/-- Every run finds what the waiting nodes list. -/
theorem Yields.found_eq {stack : List Visit} {found : List Node} (h : Yields p searchNested stack found) :
    found = (stack.flatMap (Visit.listed searchNested)).filter p := by
  induction h with
  | finish => rfl
  | @hit visit stack found hp _ ih =>
    rw [List.flatMap_cons, Visit.listed_eq, List.cons_append, List.filter_cons_of_pos hp, ih,
      List.flatMap_append]
  | @miss visit stack found hp _ ih =>
    rw [List.flatMap_cons, Visit.listed_eq, List.cons_append, List.filter_cons_of_neg (by simp [hp]), ih,
      List.flatMap_append]

/-- Every stack has a run: each step leaves fewer nodes on the stack and below it. -/
theorem exists_yields (p : Node → Bool) (searchNested : Bool) (stack : List Visit) :
    ∃ found, Yields p searchNested stack found := by
  cases stack with
  | nil => exact ⟨[], .finish⟩
  | cons visit stack =>
    obtain ⟨found, hfound⟩ := exists_yields p searchNested (visit.below searchNested ++ stack)
    cases hp : p visit.node with
    | true => exact ⟨_, .hit hp hfound⟩
    | false => exact ⟨_, .miss hp hfound⟩
termination_by (stack.map (·.node.count)).sum
decreasing_by
  have hlt := visit.sum_below_lt searchNested
  rw [List.map_append, List.sum_append, List.map_cons, List.sum_cons]
  omega

/-- A run yields what is listed for its stack, and nothing else. -/
theorem yields_iff {stack : List Visit} {found : List Node} : Yields p searchNested stack found ↔
    found = (stack.flatMap (Visit.listed searchNested)).filter p := by
  refine ⟨Yields.found_eq, ?_⟩
  rintro rfl
  obtain ⟨found, hfound⟩ := exists_yields p searchNested stack
  rwa [← hfound.found_eq]

end Yields

namespace Node

theorem visited_eq_listing (searchNested : Bool) (node : Node) :
    node.visited searchNested = node.listing searchNested := by
  cases searchNested with
  | true => exact visited_true node
  | false => exact visited_false node

/-- From every node, a search lists the node and what is below it by plain recursion, less what fails the
    test: every place once and in order, without the places inside nested scopes if these are left out.
    The stack runs empty and has then yielded this list, and a search for one node takes its head. -/
theorem findAll_lists_places (node : Node) (p : Node → Bool) :
    node.findAll p true = node.preorder.filter p ∧
    node.findAll p false = node.scopeNodes.filter p ∧
    ∀ searchNested,
      (∀ found, Yields p searchNested [⟨node, false⟩] found ↔ found = node.findAll p searchNested) ∧
      ListsPlaces (fun place => (node.at? searchNested place).filter p) (node.findAll p searchNested) ∧
      node.find? p searchNested = (node.findAll p searchNested).head? := by
  refine ⟨by rw [findAll, visited_true], by rw [findAll, visited_false], fun searchNested => ⟨?_, ?_, ?_⟩⟩
  · intro found
    have hlisted : [(⟨node, false⟩ : Visit)].flatMap (Visit.listed searchNested) =
        node.listing searchNested := by
      cases searchNested <;> simp [Visit.listed, listing]
    rw [yields_iff, hlisted, findAll, visited_eq_listing]
  · rw [findAll, visited_eq_listing]
    exact (node.listsPlaces searchNested).filter p
  · rw [find?, findAll, List.head?_filter]

end Node

end HelpAudit
