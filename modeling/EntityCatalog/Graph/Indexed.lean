import EntityCatalog.Graph

/- Graphs as they are kept: beside the list of nodes an index from values to positions, and for each
   position both its targets and its sources, so that neither end of an edge is searched for. The
   edges are counted as they are added. A tree is taken apart with a stack of subtrees, and the edges
   are listed while positions are taken from a stack and expanded, each position once. -/
namespace EntityCatalog
variable {N : Type}

/-- The targets and the sources of a position are ascending lists of positions. -/
@[ext]
structure IndexedGraph (N : Type) where
  nodes : List N
  index : List (N × Nat)
  targets : List (List Nat)
  sources : List (List Nat)
  edgeCount : Nat
  deriving DecidableEq

namespace IndexedGraph

def row (rows : List (List Nat)) (i : Nat) : List Nat := rows[i]?.getD []

def empty : IndexedGraph N := ⟨[], [], [], [], 0⟩

def nodeCount (g : IndexedGraph N) : Nat := g.nodes.length

def isEmpty (g : IndexedGraph N) : Bool := g.nodes.isEmpty

variable [DecidableEq N]

def position? (g : IndexedGraph N) (value : N) : Option Nat :=
  (g.index.find? fun entry => entry.1 = value).map Prod.snd

def inserted (g : IndexedGraph N) (value : N) : IndexedGraph N where
  nodes := g.nodes ++ [value]
  index := g.index ++ [(value, g.nodes.length)]
  targets := g.targets ++ [[]]
  sources := g.sources ++ [[]]
  edgeCount := g.edgeCount

def addNode (g : IndexedGraph N) (value : N) : IndexedGraph N × Bool :=
  match g.position? value with
  | some _ => (g, false)
  | none => (g.inserted value, true)

def positioned (g : IndexedGraph N) (value : N) : IndexedGraph N × Nat :=
  match g.position? value with
  | some i => (g, i)
  | none => (g.inserted value, g.nodes.length)

/-- Between two positions. Tells beside the new graph whether the edge is new. -/
def linked (g : IndexedGraph N) (source target : Nat) : IndexedGraph N × Bool :=
  if (row g.targets source).contains target then (g, false)
  else
    ({ g with
        targets := g.targets.modify source (insertAscending target)
        sources := g.sources.modify target (insertAscending source)
        edgeCount := g.edgeCount + 1 }, true)

def putEdge (g : IndexedGraph N) (source target : N) : IndexedGraph N × Bool :=
  let (g, s) := g.positioned source
  let (g, t) := g.positioned target
  g.linked s t

def contains (g : IndexedGraph N) (value : N) : Bool := (g.position? value).isSome

def hasEdge (g : IndexedGraph N) (source target : N) : Bool :=
  match g.position? source, g.position? target with
  | some s, some t => (row g.targets s).contains t
  | _, _ => false

def rowOf (g : IndexedGraph N) (rows : List (List Nat)) (value : N) : List Nat :=
  (g.position? value).elim [] (row rows)

def successors (g : IndexedGraph N) (value : N) : List N :=
  (g.rowOf g.targets value).filterMap fun i => g.nodes[i]?

def predecessors (g : IndexedGraph N) (value : N) : List N :=
  (g.rowOf g.sources value).filterMap fun i => g.nodes[i]?

def inDegree (g : IndexedGraph N) (value : N) : Nat := (g.rowOf g.sources value).length

def outDegree (g : IndexedGraph N) (value : N) : Nat := (g.rowOf g.targets value).length

end IndexedGraph

inductive GraphChange (N : Type) where
  | node (value : N)
  | edge (source target : N)

namespace IndexedGraph
variable [DecidableEq N]

def changed (g : IndexedGraph N) : GraphChange N → IndexedGraph N × Bool
  | .node value => g.addNode value
  | .edge source target => g.putEdge source target

def after (changes : List (GraphChange N)) : IndexedGraph N :=
  changes.foldl (fun g change => (g.changed change).1) empty

end IndexedGraph

/-! ### Growth -/

namespace IndexedGraph
variable [DecidableEq N]

/-- Links a value to each of its children in turn, unless the child has the same value. Each child
    goes on the stack. -/
def branch (parent : N) (g : IndexedGraph N) (stack : List (Tree N)) :
    List (Tree N) → IndexedGraph N × List (Tree N)
  | [] => (g, stack)
  | child :: rest =>
      branch parent (if child.value = parent then g else (g.putEdge parent child.value).1)
        (child :: stack) rest

theorem branch_stack (parent : N) (g : IndexedGraph N) (stack children : List (Tree N)) :
    (branch parent g stack children).2 = children.reverse ++ stack := by
  induction children generalizing g stack with
  | nil => rfl
  | cons child rest ih => simp [branch, ih]

def grow (g : IndexedGraph N) : List (Tree N) → IndexedGraph N
  | [] => g
  | .node value children :: stack =>
      let next := branch value g stack children
      grow next.1 next.2
termination_by stack => forestSize stack
decreasing_by
  rw [branch_stack, forestSize_append, forestSize_reverse, forestSize, Tree.size]
  omega

def withTree (g : IndexedGraph N) (root : Tree N) : IndexedGraph N :=
  (g.addNode root.value).1.grow [root]

def extended (g : IndexedGraph N) : BuildStep N → IndexedGraph N
  | .tree root => g.withTree root
  | .node value => (g.addNode value).1
  | .edge source target =>
      if source = target then (g.addNode source).1 else (g.putEdge source target).1

def build (steps : List (BuildStep N)) : IndexedGraph N := steps.foldl extended empty

end IndexedGraph

/-! ### The list of all edges, and the comparison -/

structure Listing where
  expanded : List Bool
  edges : List (Nat × Nat)

namespace Listing

def start (nodes : Nat) : Listing := ⟨List.replicate nodes false, []⟩

def isOpen (listing : Listing) (i : Nat) : Bool := listing.expanded[i]? == some false

def openCount (listing : Listing) : Nat := listing.expanded.count false

def close (listing : Listing) (i : Nat) : Listing :=
  { listing with expanded := listing.expanded.set i true }

theorem openCount_close_lt {listing : Listing} {i : Nat} (unseen : listing.isOpen i = true) :
    (listing.close i).openCount < listing.openCount := by
  obtain ⟨bound, here⟩ := List.getElem?_eq_some_iff.mp (beq_iff_eq.mp unseen)
  have some_left : 0 < listing.expanded.count false :=
    List.count_pos_iff.mpr (here ▸ List.getElem_mem bound)
  simp only [openCount, close, List.count_set bound, here, beq_self_eq_true, if_true,
    Bool.true_beq, Bool.false_eq_true, if_false]
  omega

/-- Lists the edges from one source in turn. A target that is open goes on top of the stack. -/
def follow (source : Nat) (listing : Listing) (stack : List Nat) : List Nat → Listing × List Nat
  | [] => (listing, stack)
  | target :: rest =>
      follow source { listing with edges := listing.edges ++ [(source, target)] }
        (if listing.isOpen target then target :: stack else stack) rest

theorem openCount_follow (source : Nat) (listing : Listing) (stack targets : List Nat) :
    (listing.follow source stack targets).1.openCount = listing.openCount := by
  induction targets generalizing listing stack with
  | nil => rfl
  | cons target rest ih => exact ih _ _

end Listing

namespace IndexedGraph

def expand (g : IndexedGraph N) (listing : Listing) : List Nat → Listing
  | [] => listing
  | current :: stack =>
      if _ : listing.isOpen current = true then
        let next := (listing.close current).follow current stack (row g.targets current)
        expand g next.1 next.2
      else expand g listing stack
termination_by stack => (listing.openCount, stack.length)
decreasing_by
  · refine .left _ _ ?_
    rw [Listing.openCount_follow]
    exact Listing.openCount_close_lt (by assumption)
  · exact .right _ (by simp)

def rootPositions (g : IndexedGraph N) : List Nat :=
  (List.range g.nodes.length).filter fun i => (row g.sources i).isEmpty

def expandFrom (g : IndexedGraph N) (listing : Listing) (start : Nat) : Listing :=
  if listing.isOpen start then g.expand listing [start] else listing

def edgeIndices (g : IndexedGraph N) : List (Nat × Nat) :=
  ((g.rootPositions ++ List.range g.nodes.length).foldl g.expandFrom (.start g.nodes.length)).edges

def edges (g : IndexedGraph N) : List (N × N) :=
  g.edgeIndices.filterMap fun edge =>
    match g.nodes[edge.1]?, g.nodes[edge.2]? with
    | some source, some target => some (source, target)
    | _, _ => none

def eachEdge (g : IndexedGraph N) (passes : N → N → Bool) : Bool :=
  g.targets.zipIdx.all fun row =>
    row.1.all fun target =>
      match g.nodes[row.2]?, g.nodes[target]? with
      | some source, some target => passes source target
      | _, _ => false

def same [DecidableEq N] (g h : IndexedGraph N) : Bool :=
  g.nodeCount = h.nodeCount && g.edgeCount = h.edgeCount &&
    (g.nodes.all h.contains && g.eachEdge h.hasEdge)

end IndexedGraph

end EntityCatalog
