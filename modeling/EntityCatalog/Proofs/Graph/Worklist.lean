import EntityCatalog.Graph.Indexed
import EntityCatalog.Proofs.Graph.History
import EntityCatalog.Proofs.Graph.Reachability

/- The list of edges of the redundant form. It puts only open targets on its stack and marks
   positions by flags, and yet it follows the walk step by step, because what the walk has on its
   stack beyond that is visited already and does nothing. -/
namespace EntityCatalog
open Relation (ReflTransGen)

variable {N : Type}

namespace Graph

theorem visit_fresh {g : Graph N} {visited stack : List Nat} {current : Nat}
    (fresh : current ∉ visited) (inside : current < g.nodeCount) :
    g.visit visited (current :: stack) =
      g.visit (current :: visited) ((g.targetsAt current).reverse ++ stack) := by
  have bound : current < g.vertices.length := inside
  rw [visit, dif_neg (by simpa using fresh), dif_pos bound,
    targetsAt_eq (List.getElem?_eq_getElem bound)]

theorem visit_skip {g : Graph N} {visited stack : List Nat} {current : Nat}
    (skipped : current < g.nodeCount → current ∈ visited) :
    g.visit visited (current :: stack) = g.visit visited stack := by
  by_cases seen : current ∈ visited
  · rw [visit, dif_pos (List.contains_iff_mem.mpr seen)]
  · have outside : ¬ current < g.vertices.length := fun inside => seen (skipped inside)
    rw [visit, dif_neg (by simpa using seen), dif_neg outside]

end Graph

inductive Thinned (visited : List Nat) : List Nat → List Nat → Prop where
  | empty : Thinned visited [] []
  | keep (i : Nat) {stack thin : List Nat} (rest : Thinned visited stack thin) :
      Thinned visited (i :: stack) (i :: thin)
  | drop {i : Nat} {stack thin : List Nat} (seen : i ∈ visited)
      (rest : Thinned visited stack thin) : Thinned visited (i :: stack) thin

namespace Thinned

theorem refl (visited stack : List Nat) : Thinned visited stack stack := by
  induction stack with
  | nil => exact .empty
  | cons i rest ih => exact .keep i ih

theorem cons {visited stack thin : List Nat} (current : Nat)
    (thinned : Thinned visited stack thin) : Thinned (current :: visited) stack thin := by
  induction thinned with
  | empty => exact .empty
  | keep i rest ih => exact .keep i ih
  | drop seen rest ih => exact .drop (List.mem_cons_of_mem current seen) ih

theorem append {visited stack thin : List Nat} (above : List Nat)
    (thinned : Thinned visited stack thin) : Thinned visited (above ++ stack) (above ++ thin) := by
  induction above with
  | nil => exact thinned
  | cons i rest ih => exact .keep i ih

theorem filter {visited stack : List Nat} {keeps : Nat → Bool} (above : List Nat)
    (dropped : ∀ i ∈ above, keeps i = false → i ∈ visited) :
    Thinned visited (above ++ stack) (above.filter keeps ++ stack) := by
  induction above with
  | nil => exact refl visited stack
  | cons i rest ih =>
    have later := ih fun k member => dropped k (List.mem_cons_of_mem i member)
    cases kept : keeps i with
    | true =>
      rw [List.filter_cons_of_pos kept]
      exact .keep i later
    | false =>
      rw [List.filter_cons_of_neg (by simp [kept])]
      exact .drop (dropped i (by simp) kept) later

/-- What is visited already can be taken off the stack. -/
theorem visit_eq {g : Graph N} {visited stack thin : List Nat}
    (thinned : Thinned visited stack thin) : g.visit visited stack = g.visit visited thin := by
  fun_induction Graph.visit g visited stack generalizing thin with
  | case1 visited =>
    cases thinned
    rw [Graph.visit]
  | case2 visited current stack seen ih =>
    cases thinned with
    | keep _ rest =>
      rw [Graph.visit_skip fun _ => List.contains_iff_mem.mp seen]
      exact ih rest
    | drop _ rest => exact ih rest
  | case3 visited current stack unseen inside ih =>
    cases thinned with
    | keep _ rest =>
      rw [Graph.visit, dif_neg unseen, dif_pos inside]
      exact ih ((rest.cons current).append _)
    | drop seen _ => exact absurd (List.contains_iff_mem.mpr seen) unseen
  | case4 visited current stack unseen outside ih =>
    cases thinned with
    | keep _ rest =>
      rw [Graph.visit_skip fun inside => absurd inside outside]
      exact ih rest
    | drop seen _ => exact absurd (List.contains_iff_mem.mpr seen) unseen

end Thinned

namespace Listing

theorem follow_eq (source : Nat) (listing : Listing) (stack targets : List Nat) :
    listing.follow source stack targets =
      (⟨listing.expanded, listing.edges ++ targets.map fun target => (source, target)⟩,
        (targets.filter listing.isOpen).reverse ++ stack) := by
  induction targets generalizing listing stack with
  | nil => simp [follow]
  | cons target rest ih =>
    rw [follow, ih]
    simp only [List.map_cons, List.append_assoc, List.singleton_append, List.filter_cons]
    change (_, (rest.filter listing.isOpen).reverse ++ _) = _
    split <;> simp

/-- The flags say what is visited, and the edges are those of the visited positions, in the order
    in which these were visited. -/
structure Follows (listing : Listing) (g : Graph N) (visited : List Nat) : Prop where
  flags : ∀ i, listing.expanded[i]? =
    if i < g.nodeCount then some (visited.contains i) else none
  edges : listing.edges = visited.reverse.flatMap g.edgesFrom

theorem Follows.isOpen_iff {listing : Listing} {g : Graph N} {visited : List Nat}
    (follows : listing.Follows g visited) {i : Nat} :
    listing.isOpen i = true ↔ i < g.nodeCount ∧ i ∉ visited := by
  rw [isOpen, follows.flags, beq_iff_eq]
  split
  · rename_i inside
    simp [inside]
  · rename_i outside
    simp [outside]

theorem Follows.visited_of_shut {listing : Listing} {g : Graph N} {visited : List Nat}
    (follows : listing.Follows g visited) {i : Nat} (shut : ¬ listing.isOpen i = true)
    (inside : i < g.nodeCount) : i ∈ visited :=
  Classical.byContradiction fun fresh => shut (follows.isOpen_iff.mpr ⟨inside, fresh⟩)

theorem start_follows (g : Graph N) : (start g.nodeCount).Follows g [] := by
  constructor
  · intro i
    simp [start, List.getElem?_replicate]
  · rfl

theorem Follows.close {listing : Listing} {g : Graph N} {visited : List Nat}
    (follows : listing.Follows g visited) {current : Nat} (inside : current < g.nodeCount) :
    Follows ⟨(listing.close current).expanded, listing.edges ++ g.edgesFrom current⟩ g
      (current :: visited) := by
  constructor
  · intro i
    by_cases same : current = i
    · have flagged := follows.flags i
      rw [← same, if_pos inside] at flagged
      obtain ⟨bound, -⟩ := List.getElem?_eq_some_iff.mp flagged
      rw [← same, Listing.close, List.getElem?_set_self bound, if_pos inside]
      simp
    · rw [Listing.close, List.getElem?_set_ne same, follows.flags]
      simp [Ne.symm same]
  · rw [follows.edges]
    simp

end Listing

open Listing (Follows)

namespace Graph

/-- The flags and the edges keep up with the walk through a whole stack. -/
theorem expand_follows {g : Graph N} {listing : Listing} {visited stack : List Nat}
    (follows : listing.Follows g visited) :
    (g.indexed.expand listing stack).Follows g (g.visit visited stack) := by
  fun_induction IndexedGraph.expand g.indexed listing stack generalizing visited with
  | case1 listing =>
    rw [visit]
    exact follows
  | case2 listing current stack unseen next =>
    rename_i ih
    obtain ⟨inside, fresh⟩ := follows.isOpen_iff.mp unseen
    have closed := follows.close inside
    have followed : next = (⟨(listing.close current).expanded,
        listing.edges ++ g.edgesFrom current⟩,
        ((g.targetsAt current).filter (listing.close current).isOpen).reverse ++ stack) := by
      rw [edgesFrom_eq, ← row_targets]
      exact Listing.follow_eq _ _ _ _
    rw [followed] at ih ⊢
    -- A target that stays off the stack is visited, for every target is a position.
    have thinned : Thinned (current :: visited) ((g.targetsAt current).reverse ++ stack)
        (((g.targetsAt current).filter (listing.close current).isOpen).reverse ++ stack) := by
      rw [← List.filter_reverse]
      apply Thinned.filter
      intro target member shut
      have position := (lt_of_mem_targetsAt (List.mem_reverse.mp member)).2
      exact closed.visited_of_shut (Bool.eq_false_iff.mp shut) position
    rw [visit_fresh fresh inside, thinned.visit_eq]
    exact ih closed
  | case3 listing current stack shut ih =>
    rw [visit_skip (follows.visited_of_shut shut)]
    exact ih follows

theorem expandFrom_follows {g : Graph N} {listing : Listing} {visited : List Nat}
    (follows : listing.Follows g visited) (start : Nat) :
    (g.indexed.expandFrom listing start).Follows g (g.visit visited [start]) := by
  unfold IndexedGraph.expandFrom
  split
  · exact expand_follows follows
  · rename_i shut
    rw [visit_skip (follows.visited_of_shut shut), visit]
    exact follows

theorem expandAll_follows {g : Graph N} {listing : Listing} {visited : List Nat}
    (follows : listing.Follows g visited) (starts : List Nat) :
    (starts.foldl g.indexed.expandFrom listing).Follows g (g.visits starts visited) := by
  induction starts generalizing listing visited with
  | nil => exact follows
  | cons start rest ih => exact ih (expandFrom_follows follows start)

theorem isEmpty_sourcesAt (g : Graph N) (i : Nat) :
    (g.sourcesAt i).isEmpty = g.vertices.all fun vertex => !vertex.targets.contains i := by
  rw [Bool.eq_iff_iff, List.isEmpty_iff, List.eq_nil_iff_forall_not_mem]
  simp only [mem_sourcesAt, List.all_eq_true, Bool.not_eq_true', List.contains_eq_mem,
    decide_eq_false_iff_not]
  constructor
  · intro none vertex member
    obtain ⟨source, here⟩ := List.getElem?_of_mem member
    rw [← targetsAt_eq here]
    exact none source
  · intro none source member
    have here := List.getElem?_eq_getElem (lt_of_mem_targetsAt member).1
    rw [targetsAt_eq here] at member
    exact none _ (List.mem_of_getElem? here) member

theorem rootPositions_indexed (g : Graph N) : g.indexed.rootPositions = g.rootPositions := by
  have nodes : g.indexed.nodes.length = g.vertices.length := g.nodes_length
  rw [IndexedGraph.rootPositions, rootPositions, nodes]
  apply List.filter_congr
  intro i _
  rw [row_sources, isEmpty_sourcesAt]

@[simp] theorem mem_rootPositions {g : Graph N} {i : Nat} :
    i ∈ g.rootPositions ↔ i < g.nodeCount ∧ g.sourcesAt i = [] := by
  rw [rootPositions, List.mem_filter, List.mem_range, ← isEmpty_sourcesAt, List.isEmpty_iff]
  rfl

@[simp] theorem edgeIndices_indexed (g : Graph N) : g.indexed.edgeIndices = g.edgeIndices := by
  have nodes : g.indexed.nodes.length = g.nodeCount := g.nodes_length
  have follows := expandAll_follows (Listing.start_follows g)
    (g.rootPositions ++ List.range g.nodeCount)
  rw [IndexedGraph.edgeIndices, nodes, rootPositions_indexed, follows.edges]
  rfl

end Graph

namespace IndexedGraph

def Rooted (g : IndexedGraph N) (i : Nat) : Prop :=
  ∃ root < g.nodeCount, row g.sources root = [] ∧
    ReflTransGen (fun source target => target ∈ row g.targets source) root i

/-- Every edge is in the list, once, and nothing else is. The edges of one source stand together by
    ascending target, and what can be reached from a position without sources comes first. -/
structure Enumerates (g : IndexedGraph N) (listed : List (Nat × Nat)) : Prop where
  once : listed.Nodup
  complete : ∀ source target, (source, target) ∈ listed ↔ target ∈ row g.targets source
  counted : listed.length = g.edgeCount
  grouped : ∀ source, ∃ before later,
    listed = before ++ (row g.targets source).map (fun target => (source, target)) ++ later ∧
      ∀ edge ∈ before ++ later, edge.1 ≠ source
  ascending : ∀ source, (row g.targets source).Pairwise (· < ·)
  roots_first : ∃ first rest, listed = first ++ rest ∧ (∀ edge ∈ first, g.Rooted edge.1) ∧
    ∀ edge ∈ rest, ¬ g.Rooted edge.1

theorem rooted_indexed {g : Graph N} {i : Nat} : g.indexed.Rooted i ↔ g.Rooted i := by
  have nodes : g.indexed.nodeCount = g.nodeCount := g.nodes_length
  simp only [Rooted, Graph.Rooted, Graph.mem_rootPositions, Graph.row_targets, Graph.row_sources,
    nodes, and_assoc]
  rfl

theorem enumerates_indexed (g : Graph N) : g.indexed.Enumerates g.edgeIndices := by
  constructor
  · exact g.edgeIndices_nodup
  · intro source target
    rw [Graph.row_targets]
    exact Graph.mem_edgeIndices
  · exact g.edgeIndices_length
  · intro source
    rw [Graph.row_targets]
    exact g.edgeIndices_grouped source
  · intro source
    rw [Graph.row_targets]
    exact g.targetsAt_ascending source
  · simp only [rooted_indexed]
    exact g.edgeIndices_roots_first

/-- Whatever calls made the graph, with whatever cycles, the list of its edges comes to an end and
    is complete. -/
theorem edges_enumerated [DecidableEq N] (changes : List (GraphChange N)) :
    (after changes).Enumerates (after changes).edgeIndices := by
  rw [Graph.indexed_after, Graph.edgeIndices_indexed]
  exact enumerates_indexed _

/-- A cycle that a root leads to, a loop that none leads to, and a node that two paths reach. -/
example :
    (after [.edge "a" "b", .edge "b" "c", .edge "c" "b", .edge "d" "d", .edge "e" "c",
      .edge "e" "a"]).edgeIndices = [(4, 0), (4, 2), (2, 1), (1, 2), (0, 1), (3, 3)] := by
  cbv

end IndexedGraph
end EntityCatalog
