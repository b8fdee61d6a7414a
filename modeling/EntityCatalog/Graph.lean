/- Directed graphs over values. A value is one vertex, in the order in which values were first
   mentioned, and each ordered pair of vertices has at most one edge. Graphs are built from trees,
   single vertices and single edges, where equal values are never linked. The depth-first walk starts
   at the vertices without incoming edges, and then at every vertex not yet visited, so that cycles
   that no such vertex leads to are not missed. -/
namespace EntityCatalog
variable {N : Type}

/-- The targets of a vertex are positions in the list of vertices. -/
structure Vertex (N : Type) where
  value : N
  targets : List Nat
  deriving DecidableEq

structure Graph (N : Type) where
  vertices : List (Vertex N)
  distinct : (vertices.map Vertex.value).Nodup
  ascending : ∀ vertex ∈ vertices, vertex.targets.Pairwise (· < ·)
  in_range : ∀ vertex ∈ vertices, ∀ target ∈ vertex.targets, target < vertices.length

def insertAscending (n : Nat) : List Nat → List Nat
  | [] => [n]
  | first :: rest =>
      if n < first then n :: first :: rest
      else if n = first then first :: rest
      else first :: insertAscending n rest

@[simp] theorem mem_insertAscending {n k : Nat} {numbers : List Nat} :
    k ∈ insertAscending n numbers ↔ k = n ∨ k ∈ numbers := by
  induction numbers with
  | nil => simp [insertAscending]
  | cons first rest ih =>
    simp only [insertAscending]
    split
    · simp
    · split
      · rename_i same
        simp [same]
      · simp only [List.mem_cons, ih]
        constructor
        · rintro (one | two | three) <;> simp_all
        · rintro (one | two | three) <;> simp_all

theorem insertAscending_pairwise {n : Nat} {numbers : List Nat}
    (ascending : numbers.Pairwise (· < ·)) : (insertAscending n numbers).Pairwise (· < ·) := by
  induction numbers with
  | nil => simp [insertAscending]
  | cons first rest ih =>
    obtain ⟨before, tail⟩ := List.pairwise_cons.mp ascending
    simp only [insertAscending]
    split
    · rename_i less
      refine List.pairwise_cons.mpr ⟨fun k member => ?_, ascending⟩
      rcases List.mem_cons.mp member with same | later
      · omega
      · have := before k later; omega
    · split
      · exact ascending
      · refine List.pairwise_cons.mpr ⟨fun k member => ?_, ih tail⟩
        rcases mem_insertAscending.mp member with same | old
        · omega
        · exact before k old

namespace Graph

def empty : Graph N := ⟨[], by simp, by simp, by simp⟩

def nodes (g : Graph N) : List N := g.vertices.map Vertex.value

def nodeCount (g : Graph N) : Nat := g.vertices.length

def edgeCount (g : Graph N) : Nat := (g.vertices.flatMap Vertex.targets).length

def isEmpty (g : Graph N) : Bool := g.vertices.isEmpty

variable [DecidableEq N]

def contains (g : Graph N) (value : N) : Bool := g.vertices.any fun vertex => vertex.value = value

/-- The position of a value; the number of vertices when it has none. -/
def position (g : Graph N) (value : N) : Nat :=
  g.vertices.findIdx fun vertex => vertex.value = value

def withNode (g : Graph N) (value : N) : Graph N :=
  if absent : g.contains value = false then
    ⟨g.vertices ++ [⟨value, []⟩],
      by
        have fresh : value ∉ g.vertices.map Vertex.value := by
          simpa [contains] using absent
        simpa [List.nodup_append, g.distinct] using fresh,
      by
        intro vertex member
        rcases List.mem_append.mp member with old | added
        · exact g.ascending vertex old
        · simp_all,
      by
        intro vertex member target at_target
        rcases List.mem_append.mp member with old | added
        · have := g.in_range vertex old target at_target
          simp only [List.length_append]
          omega
        · simp_all⟩
  else g

theorem position_withNode_lt (g : Graph N) (value : N) :
    (g.withNode value).position value < (g.withNode value).vertices.length := by
  unfold position withNode
  split
  · refine List.findIdx_lt_length_of_exists ⟨⟨value, []⟩, by simp, by simp⟩
  · rename_i present
    refine List.findIdx_lt_length_of_exists ?_
    simpa [contains] using present

def linked (g : Graph N) (source : N) (target : Nat) (target_lt : target < g.vertices.length) :
    Graph N :=
  ⟨g.vertices.map fun vertex =>
      if vertex.value = source then ⟨vertex.value, insertAscending target vertex.targets⟩
      else vertex,
    by
      have same : (Vertex.value ∘ fun vertex : Vertex N =>
          if vertex.value = source then ⟨vertex.value, insertAscending target vertex.targets⟩
          else vertex) = Vertex.value := by
        funext vertex
        simp only [Function.comp]
        split <;> rfl
      rw [List.map_map, same]
      exact g.distinct,
    by
      intro vertex member
      obtain ⟨before, at_before, rfl⟩ := List.mem_map.mp member
      split
      · exact insertAscending_pairwise (g.ascending before at_before)
      · exact g.ascending before at_before,
    by
      intro vertex member k at_k
      obtain ⟨before, at_before, rfl⟩ := List.mem_map.mp member
      rw [List.length_map]
      split at at_k
      · rcases mem_insertAscending.mp at_k with same | old
        · omega
        · exact g.in_range before at_before k old
      · exact g.in_range before at_before k at_k⟩

/-- Adds an edge, and before it the vertices that are missing, the source first. -/
def withEdge (g : Graph N) (source target : N) : Graph N :=
  ((g.withNode source).withNode target).linked source _
    (position_withNode_lt (g.withNode source) target)

def hasEdge (g : Graph N) (source target : N) : Bool :=
  g.vertices.any fun vertex =>
    vertex.value = source && vertex.targets.contains (g.position target)

/-- Tells beside the new graph whether the value is new. -/
def addNode (g : Graph N) (value : N) : Graph N × Bool := (g.withNode value, !g.contains value)

def putEdge (g : Graph N) (source target : N) : Graph N × Bool :=
  (g.withEdge source target, !g.hasEdge source target)

def targets (g : Graph N) (value : N) : List Nat :=
  (g.vertices.find? fun vertex => vertex.value = value).elim [] Vertex.targets

def successors (g : Graph N) (value : N) : List N :=
  (g.targets value).filterMap fun i => g.nodes[i]?

/-- As many vertices and edges, and all of the one among those of the other. -/
def same (g h : Graph N) : Bool :=
  g.nodeCount = h.nodeCount && g.edgeCount = h.edgeCount &&
    (g.nodes.all h.contains &&
      g.nodes.all fun value => (g.successors value).all (h.hasEdge value))

def ofLists (nodes : List N) (edges : List (N × N)) : Graph N :=
  edges.foldl (fun g edge => g.withEdge edge.1 edge.2) (nodes.foldl withNode empty)

end Graph

/-! ### Trees -/

inductive Tree (N : Type) where
  | node (value : N) (children : List (Tree N))

namespace Tree

def value : Tree N → N
  | .node value _ => value

def children : Tree N → List (Tree N)
  | .node _ children => children

end Tree

mutual

def Tree.size : Tree N → Nat
  | .node _ children => 1 + forestSize children

def forestSize : List (Tree N) → Nat
  | [] => 0
  | tree :: rest => tree.size + forestSize rest

end

@[simp] theorem forestSize_append (first second : List (Tree N)) :
    forestSize (first ++ second) = forestSize first + forestSize second := by
  induction first with
  | nil => simp [forestSize]
  | cons tree rest ih => simp [forestSize, ih, Nat.add_assoc]

@[simp] theorem forestSize_reverse (forest : List (Tree N)) :
    forestSize forest.reverse = forestSize forest := by
  induction forest with
  | nil => rfl
  | cons tree rest ih => simp [forestSize, ih, Nat.add_comm]

inductive BuildStep (N : Type) where
  | tree (root : Tree N)
  | node (value : N)
  | edge (source target : N)

namespace Graph
variable [DecidableEq N]

def withChildren (g : Graph N) (parent : N) (children : List (Tree N)) : Graph N :=
  children.foldl
    (fun g child => if child.value = parent then g else g.withEdge parent child.value) g

/-- Links the trees on the stack, the top first, to their children, and then the children, the
    last one first. -/
def withForest (g : Graph N) : List (Tree N) → Graph N
  | [] => g
  | .node value children :: stack =>
      (g.withChildren value children).withForest (children.reverse ++ stack)
termination_by stack => forestSize stack
decreasing_by
  simp only [List.unattach_reverse, List.unattach_attach, forestSize_append, forestSize_reverse,
    forestSize, Tree.size]
  omega

def withTree (g : Graph N) (root : Tree N) : Graph N := (g.withNode root.value).withForest [root]

def extended (g : Graph N) : BuildStep N → Graph N
  | .tree root => g.withTree root
  | .node value => g.withNode value
  | .edge source target =>
      if source = target then g.withNode source else g.withEdge source target

def build (steps : List (BuildStep N)) : Graph N := steps.foldl extended empty

end Graph

/-! ### The walk -/

namespace Graph

def unvisited (g : Graph N) (visited : List Nat) : Nat :=
  (List.range g.vertices.length).countP fun i => !visited.contains i

theorem unvisited_cons_lt (g : Graph N) {visited : List Nat} {i : Nat}
    (fresh : visited.contains i = false) (bound : i < g.vertices.length) :
    g.unvisited (i :: visited) < g.unvisited visited := by
  unfold unvisited
  refine Nat.lt_of_succ_le ?_
  have split_range := List.countP_eq_countP_filter_add (List.range g.vertices.length)
    (fun k => !visited.contains k) (fun k => k == i)
  have split_rest := List.countP_eq_countP_filter_add (List.range g.vertices.length)
    (fun k => !(i :: visited).contains k) (fun k => k == i)
  have here : 0 < ((List.range g.vertices.length).filter fun k => k == i).countP
      fun k => !visited.contains k := by
    refine List.countP_pos_iff.mpr ⟨i, ?_, ?_⟩
    · simp [bound]
    · simpa using fresh
  have gone : ((List.range g.vertices.length).filter fun k => k == i).countP
      (fun k => !(i :: visited).contains k) = 0 := by
    refine List.countP_eq_zero.mpr fun k member => ?_
    simp only [List.mem_filter, beq_iff_eq] at member
    simp [member.2]
  have elsewhere : ((List.range g.vertices.length).filter fun k => !(k == i)).countP
      (fun k => !(i :: visited).contains k) =
      ((List.range g.vertices.length).filter fun k => !(k == i)).countP
        fun k => !visited.contains k := by
    refine List.countP_congr fun k member => ?_
    simp only [List.mem_filter, Bool.not_eq_true', beq_eq_false_iff_ne] at member
    simp [member.2]
  omega

/-- Visits what is on the stack, the top first, and after each vertex its successors, the last one
    first. The vertices visited so far are kept last first. -/
def visit (g : Graph N) (visited : List Nat) : List Nat → List Nat
  | [] => visited
  | current :: stack =>
      if seen : visited.contains current = true then visit g visited stack
      else
        if inside : current < g.vertices.length then
          visit g (current :: visited) (g.vertices[current].targets.reverse ++ stack)
        else visit g visited stack
termination_by stack => (g.unvisited visited, stack.length)
decreasing_by
  · exact .right _ (by simp)
  · exact .left _ _ (g.unvisited_cons_lt (by simpa using seen) inside)
  · exact .right _ (by simp)

def rootPositions (g : Graph N) : List Nat :=
  (List.range g.vertices.length).filter fun i =>
    g.vertices.all fun vertex => !vertex.targets.contains i

def visitOrder (g : Graph N) : List Nat :=
  ((g.rootPositions ++ List.range g.vertices.length).foldl
    (fun visited start => g.visit visited [start]) []).reverse

def edgesFrom (g : Graph N) (source : Nat) : List (Nat × Nat) :=
  (g.vertices[source]?.elim [] Vertex.targets).map fun target => (source, target)

def edgeIndices (g : Graph N) : List (Nat × Nat) := g.visitOrder.flatMap g.edgesFrom

def edges (g : Graph N) : List (N × N) :=
  g.edgeIndices.filterMap fun edge =>
    match g.nodes[edge.1]?, g.nodes[edge.2]? with
    | some source, some target => some (source, target)
    | _, _ => none

def roots (g : Graph N) : List N := g.rootPositions.filterMap fun i => g.nodes[i]?

end Graph

end EntityCatalog
