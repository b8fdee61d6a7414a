import EntityCatalog.Graph.Indexed
import EntityCatalog.Proofs.Graph.History

/- What is built from trees, single nodes and single edges. Whatever the order in which the stack
   gives the subtrees back, each of them is linked to its children once, so the edges are the pairs
   of a value and a value right below it. A child that has the value of its parent is not linked,
   but its own children are linked all the same. -/
namespace EntityCatalog
variable {N : Type}

namespace Tree

inductive Holds : Tree N → Tree N → Prop where
  | self (tree : Tree N) : Holds tree tree
  | deeper {tree child inner : Tree N} (member : child ∈ tree.children)
      (within : Holds child inner) : Holds tree inner

def Mentions (tree : Tree N) (value : N) : Prop :=
  ∃ inner, tree.Holds inner ∧ inner.value = value

def Joins (tree : Tree N) (parent child : N) : Prop :=
  ∃ inner, tree.Holds inner ∧ inner.value = parent ∧ ∃ next ∈ inner.children, next.value = child

theorem holds_iff {tree inner : Tree N} :
    tree.Holds inner ↔ inner = tree ∨ ∃ child ∈ tree.children, child.Holds inner := by
  constructor
  · intro held
    cases held with
    | self => exact Or.inl rfl
    | deeper member within => exact Or.inr ⟨_, member, within⟩
  · rintro (rfl | ⟨child, member, within⟩)
    · exact .self _
    · exact .deeper member within

theorem mentions_iff (tree : Tree N) {value : N} :
    tree.Mentions value ↔ tree.value = value ∨ ∃ child ∈ tree.children, child.Mentions value := by
  unfold Mentions
  constructor
  · rintro ⟨inner, held, same⟩
    rcases holds_iff.mp held with rfl | ⟨child, member, within⟩
    · exact Or.inl same
    · exact Or.inr ⟨child, member, inner, within, same⟩
  · rintro (same | ⟨child, member, inner, within, same⟩)
    · exact ⟨tree, .self tree, same⟩
    · exact ⟨inner, .deeper member within, same⟩

theorem joins_iff (tree : Tree N) {parent value : N} :
    tree.Joins parent value ↔
      (tree.value = parent ∧ ∃ child ∈ tree.children, child.value = value) ∨
        ∃ child ∈ tree.children, child.Joins parent value := by
  unfold Joins
  constructor
  · rintro ⟨inner, held, joined⟩
    rcases holds_iff.mp held with rfl | ⟨child, member, within⟩
    · exact Or.inl joined
    · exact Or.inr ⟨child, member, inner, within, joined⟩
  · rintro (joined | ⟨child, member, inner, within, joined⟩)
    · exact ⟨tree, .self tree, joined⟩
    · exact ⟨inner, .deeper member within, joined⟩

end Tree

namespace BuildStep

def Mentions : BuildStep N → N → Prop
  | .tree root, value => root.Mentions value
  | .node only, value => only = value
  | .edge source target, value => source = value ∨ target = value

/-- The call puts the second value right below the first, or names the two as an edge. -/
def Joins : BuildStep N → N → N → Prop
  | .tree root, first, second => root.Joins first second
  | .node _, _, _ => False
  | .edge source target, first, second => source = first ∧ target = second

end BuildStep

theorem exists_mem_stack {children stack : List (Tree N)} {holds : Tree N → Prop} :
    (∃ tree ∈ children.reverse ++ stack, holds tree) ↔
      (∃ child ∈ children, holds child) ∨ ∃ tree ∈ stack, holds tree := by
  simp only [List.mem_append, List.mem_reverse, or_and_right, exists_or]

theorem not_joined_to_itself (value first second : N) :
    ¬ (first ≠ second ∧ value = first ∧ value = second) := by
  rintro ⟨apart, rfl, same⟩
  exact apart same

/-- Induction over a stack from which trees are taken: in place of a tree its children come, the last
    of them on top. -/
theorem stack_induction {motive : List (Tree N) → Prop} (done : motive [])
    (take : ∀ value children stack, motive (children.reverse ++ stack) →
      motive (.node value children :: stack)) (stack : List (Tree N)) : motive stack := by
  induction size : forestSize stack using Nat.strongRecOn generalizing stack with
  | ind n ih =>
    cases stack with
    | nil => exact done
    | cons tree stack =>
      obtain ⟨value, children⟩ := tree
      refine take value children stack (ih _ ?_ _ rfl)
      rw [← size, forestSize_append, forestSize_reverse, forestSize, Tree.size]
      omega

namespace Graph
variable [DecidableEq N]

theorem hasEdge_withEdge_apart {g : Graph N} {source target first second : N}
    (apart : source ≠ target) :
    (g.withEdge source target).hasEdge first second = true ↔
      g.hasEdge first second = true ∨ first ≠ second ∧ source = first ∧ target = second := by
  rw [hasEdge_withEdge, Prod.mk.injEq]
  constructor
  · rintro (old | ⟨rfl, rfl⟩)
    · exact Or.inl old
    · exact Or.inr ⟨apart, rfl, rfl⟩
  · rintro (old | ⟨-, rfl, rfl⟩)
    · exact Or.inl old
    · exact Or.inr ⟨rfl, rfl⟩

theorem hasEdge_withChild {g : Graph N} {parent child first second : N} :
    (if child = parent then g else g.withEdge parent child).hasEdge first second = true ↔
      g.hasEdge first second = true ∨ first ≠ second ∧ parent = first ∧ child = second := by
  split
  · rename_i same
    rw [same, or_iff_left (not_joined_to_itself parent first second)]
  · rename_i other
    exact hasEdge_withEdge_apart (Ne.symm other)

theorem hasEdge_withChildren {g : Graph N} {parent first second : N} {children : List (Tree N)} :
    (g.withChildren parent children).hasEdge first second = true ↔
      g.hasEdge first second = true ∨
        first ≠ second ∧ parent = first ∧ ∃ child ∈ children, child.value = second := by
  unfold withChildren
  induction children generalizing g with
  | nil => simp
  | cons child rest ih =>
    rw [List.foldl_cons, ih, hasEdge_withChild, or_assoc, ← and_or_left, ← and_or_left]
    simp only [List.mem_cons, exists_eq_or_imp]

theorem mem_nodes_withChild {g : Graph N} {parent value : N} (child : N) (known : parent ∈ g.nodes) :
    value ∈ (if child = parent then g else g.withEdge parent child).nodes ↔
      value ∈ g.nodes ∨ child = value := by
  split
  · rename_i same
    rw [same]
    constructor
    · exact Or.inl
    · rintro (old | rfl)
      · exact old
      · exact known
  · rw [mem_nodes_withEdge]
    constructor
    · rintro (old | rfl | rfl)
      · exact Or.inl old
      · exact Or.inl known
      · exact Or.inr rfl
    · rintro (old | rfl)
      · exact Or.inl old
      · exact Or.inr (Or.inr rfl)

theorem mem_nodes_withChildren {g : Graph N} {parent value : N} {children : List (Tree N)}
    (known : parent ∈ g.nodes) :
    value ∈ (g.withChildren parent children).nodes ↔
      value ∈ g.nodes ∨ ∃ child ∈ children, child.value = value := by
  unfold withChildren
  induction children generalizing g with
  | nil => simp
  | cons child rest ih =>
    have still_known := (mem_nodes_withChild child.value known).mpr (Or.inl known)
    rw [List.foldl_cons, ih still_known, mem_nodes_withChild child.value known, or_assoc]
    simp only [List.mem_cons, exists_eq_or_imp]

theorem hasEdge_withForest {g : Graph N} {stack : List (Tree N)} {first second : N} :
    (g.withForest stack).hasEdge first second = true ↔
      g.hasEdge first second = true ∨
        first ≠ second ∧ ∃ tree ∈ stack, tree.Joins first second := by
  induction stack using stack_induction generalizing g with
  | done => simp [withForest]
  | take value children stack ih =>
    rw [withForest, ih, hasEdge_withChildren, exists_mem_stack, or_assoc, ← and_or_left]
    simp only [List.mem_cons, exists_eq_or_imp, Tree.joins_iff (.node value children)]
    rw [or_assoc]
    rfl

theorem mem_nodes_withForest {g : Graph N} {stack : List (Tree N)} {value : N}
    (rooted : ∀ tree ∈ stack, tree.value ∈ g.nodes) :
    value ∈ (g.withForest stack).nodes ↔
      value ∈ g.nodes ∨ ∃ tree ∈ stack, tree.Mentions value := by
  -- The values on the stack are nodes already when their trees are taken.
  induction stack using stack_induction generalizing g with
  | done => simp [withForest]
  | take parent children stack ih =>
    have known : parent ∈ g.nodes := rooted (.node parent children) (by simp)
    -- A child that is not linked is a node all the same: it has the value of its parent.
    have next_rooted : ∀ tree ∈ children.reverse ++ stack,
        tree.value ∈ (g.withChildren parent children).nodes := by
      intro tree member
      rw [mem_nodes_withChildren known]
      rcases List.mem_append.mp member with at_children | at_stack
      · exact Or.inr ⟨tree, List.mem_reverse.mp at_children, rfl⟩
      · exact Or.inl (rooted tree (List.mem_cons_of_mem _ at_stack))
    rw [withForest, ih next_rooted, mem_nodes_withChildren known, exists_mem_stack]
    simp only [List.mem_cons, exists_eq_or_imp, Tree.mentions_iff (.node parent children)]
    constructor
    · rintro ((old | ⟨child, member, same⟩) | at_child | at_stack)
      · exact Or.inl old
      · exact Or.inr (Or.inl (Or.inr ⟨child, member, (Tree.mentions_iff child).mpr (Or.inl same)⟩))
      · exact Or.inr (Or.inl (Or.inr at_child))
      · exact Or.inr (Or.inr at_stack)
    · rintro (old | (same | at_child) | at_stack)
      · exact Or.inl (Or.inl old)
      · rw [← same]
        exact Or.inl (Or.inl known)
      · exact Or.inr (Or.inl at_child)
      · exact Or.inr (Or.inr at_stack)

theorem hasEdge_extended {g : Graph N} {step : BuildStep N} {first second : N} :
    (g.extended step).hasEdge first second = true ↔
      g.hasEdge first second = true ∨ first ≠ second ∧ step.Joins first second := by
  cases step with
  | tree root =>
    change ((g.withNode root.value).withForest [root]).hasEdge first second = true ↔ _
    rw [hasEdge_withForest, hasEdge_withNode]
    simp [BuildStep.Joins]
  | node value =>
    change (g.withNode value).hasEdge first second = true ↔ _
    rw [hasEdge_withNode]
    simp [BuildStep.Joins]
  | edge source target =>
    change (if source = target then g.withNode source else g.withEdge source target).hasEdge
      first second = true ↔ _
    split
    · rename_i same
      rw [hasEdge_withNode, BuildStep.Joins, ← same,
        or_iff_left (not_joined_to_itself source first second)]
    · rename_i other
      exact hasEdge_withEdge_apart other

theorem mem_nodes_extended {g : Graph N} {step : BuildStep N} {value : N} :
    value ∈ (g.extended step).nodes ↔ value ∈ g.nodes ∨ step.Mentions value := by
  cases step with
  | tree root =>
    have rooted : ∀ tree ∈ [root], tree.value ∈ (g.withNode root.value).nodes := by
      intro tree member
      rw [List.mem_singleton.mp member]
      exact mem_nodes_withNode.mpr (Or.inr rfl)
    change value ∈ ((g.withNode root.value).withForest [root]).nodes ↔ _
    rw [mem_nodes_withForest rooted, mem_nodes_withNode]
    simp only [List.mem_singleton, exists_eq_left, BuildStep.Mentions]
    constructor
    · rintro ((old | rfl) | mentioned)
      · exact Or.inl old
      · exact Or.inr ((Tree.mentions_iff root).mpr (Or.inl rfl))
      · exact Or.inr mentioned
    · rintro (old | mentioned)
      · exact Or.inl (Or.inl old)
      · exact Or.inr mentioned
  | node only =>
    change value ∈ (g.withNode only).nodes ↔ _
    rw [mem_nodes_withNode]
    exact or_congr_right eq_comm
  | edge source target =>
    change value ∈ (if source = target then g.withNode source
      else g.withEdge source target).nodes ↔ _
    simp only [BuildStep.Mentions, eq_comm (b := value)]
    split
    · rename_i same
      rw [mem_nodes_withNode, same, or_self]
    · rw [mem_nodes_withEdge]

theorem hasEdge_steps {g : Graph N} {steps : List (BuildStep N)} {first second : N} :
    (steps.foldl extended g).hasEdge first second = true ↔
      g.hasEdge first second = true ∨
        first ≠ second ∧ ∃ step ∈ steps, step.Joins first second := by
  induction steps generalizing g with
  | nil => simp
  | cons step rest ih =>
    rw [List.foldl_cons, ih, hasEdge_extended, or_assoc, ← and_or_left]
    simp only [List.mem_cons, exists_eq_or_imp]

theorem mem_nodes_steps {g : Graph N} {steps : List (BuildStep N)} {value : N} :
    value ∈ (steps.foldl extended g).nodes ↔
      value ∈ g.nodes ∨ ∃ step ∈ steps, step.Mentions value := by
  induction steps generalizing g with
  | nil => simp
  | cons step rest ih =>
    rw [List.foldl_cons, ih, mem_nodes_extended, or_assoc]
    simp only [List.mem_cons, exists_eq_or_imp]

theorem branch_indexed (parent : N) (g : Graph N) (stack children : List (Tree N)) :
    (IndexedGraph.branch parent g.indexed stack children).1 =
      (g.withChildren parent children).indexed := by
  induction children generalizing g stack with
  | nil => rfl
  | cons child rest ih =>
    have linked : (if child.value = parent then g.indexed
        else (g.indexed.putEdge parent child.value).1) =
        (if child.value = parent then g else g.withEdge parent child.value).indexed := by
      rw [putEdge_indexed, apply_ite indexed]
    rw [IndexedGraph.branch, linked]
    exact ih _ _

theorem grow_indexed (g : Graph N) (stack : List (Tree N)) :
    g.indexed.grow stack = (g.withForest stack).indexed := by
  induction stack using stack_induction generalizing g with
  | done => rw [IndexedGraph.grow, withForest]
  | take value children stack ih =>
    rw [IndexedGraph.grow, IndexedGraph.branch_stack, branch_indexed, ih, withForest]

theorem extended_indexed (g : Graph N) (step : BuildStep N) :
    g.indexed.extended step = (g.extended step).indexed := by
  cases step with
  | tree root => rw [IndexedGraph.extended, IndexedGraph.withTree, addNode_indexed, grow_indexed]; rfl
  | node value => rw [IndexedGraph.extended, addNode_indexed]; rfl
  | edge source target =>
    rw [IndexedGraph.extended, addNode_indexed, putEdge_indexed, extended, apply_ite indexed]

theorem build_indexed (steps : List (BuildStep N)) :
    IndexedGraph.build steps = (build steps).indexed := by
  have from_any (g : Graph N) :
      steps.foldl IndexedGraph.extended g.indexed = (steps.foldl extended g).indexed := by
    induction steps generalizing g with
    | nil => rfl
    | cons step rest ih => rw [List.foldl_cons, extended_indexed, ih, List.foldl_cons]
  exact from_any empty

end Graph

namespace IndexedGraph
variable [DecidableEq N]

theorem extended_leaf (g : IndexedGraph N) (value : N) :
    g.extended (.tree (.node value [])) = g.extended (.node value) := by
  change (g.addNode value).1.grow [.node value []] = (g.addNode value).1
  rw [grow, branch, grow]

/-- The nodes of a graph that is built are the values that occur in the calls, and its edges are the
    pairs of different values of which one stands right below the other in a tree, or which are
    named as an edge. So no node has an edge to itself, and a tree that is only a root does what a
    single node does, whatever comes before it and after it. -/
theorem built_from_pairs (steps : List (BuildStep N)) :
    (build steps).Synced ∧
    (∀ value, value ∈ (build steps).nodes ↔ ∃ step ∈ steps, step.Mentions value) ∧
    (∀ source target, (build steps).hasEdge source target = true ↔
      source ≠ target ∧ ∃ step ∈ steps, step.Joins source target) ∧
    (∀ value, (build steps).hasEdge value value = false) ∧
    ∀ value later, build (steps ++ .tree (.node value []) :: later) =
      build (steps ++ .node value :: later) := by
  have edges (source target : N) : (build steps).hasEdge source target = true ↔
      source ≠ target ∧ ∃ step ∈ steps, step.Joins source target := by
    rw [Graph.build_indexed, Graph.hasEdge_indexed, Graph.build, Graph.hasEdge_steps]
    simp [Graph.hasEdge, Graph.empty]
  refine ⟨?_, ?_, edges, ?_, ?_⟩
  · rw [Graph.build_indexed]
    exact synced_of_graph _
  · intro value
    rw [Graph.build_indexed]
    change value ∈ (Graph.build steps).nodes ↔ _
    rw [Graph.build, Graph.mem_nodes_steps]
    simp [Graph.nodes, Graph.empty]
  · intro value
    rw [Bool.eq_false_iff, ne_eq, edges]
    rintro ⟨apart, -⟩
    exact apart rfl
  · intro value later
    simp only [build, List.foldl_append, List.foldl_cons, extended_leaf]

/-- The root occurs again below itself, twice: once right below it, where its own child is linked
    all the same, and once deeper. -/
example :
    build [.tree (.node "a" [.node "a" [.node "b" []], .node "c" [.node "a" []]]),
      .edge "d" "d"] =
      ⟨["a", "c", "b", "d"], [("a", 0), ("c", 1), ("b", 2), ("d", 3)], [[1, 2], [0], [], []],
        [[1], [0], [0], []], 3⟩ := by
  cbv

end IndexedGraph
end EntityCatalog
