import EntityCatalog.Graph.Indexed
import EntityCatalog.Proofs.Graph.History
import Mathlib.Data.List.Perm.Subperm

/- When two graphs are the same. The comparison counts nodes and edges and looks for those of the
   one graph in the other, in this direction only. As no node and no edge is counted twice, nothing
   of the other graph is left over then. -/
namespace EntityCatalog
open GraphChange

variable {N : Type} [DecidableEq N]

namespace Graph

theorem mem_successors_iff {g : Graph N} {source target : N} (known : source ∈ g.nodes) :
    target ∈ g.successors source ↔ g.hasEdge source target = true := by
  obtain ⟨i, here⟩ := List.getElem?_of_mem known
  rw [mem_successors here, hasEdge_iff_positions]
  constructor
  · rintro ⟨k, linked, there⟩
    exact ⟨i, k, here, there, linked⟩
  · rintro ⟨j, k, also_here, there, linked⟩
    rw [← position_of_getElem? also_here, position_of_getElem? here] at linked
    exact ⟨k, linked, there⟩

theorem same_iff {g h : Graph N} :
    g.same h = true ↔ g.nodeCount = h.nodeCount ∧ g.edgeCount = h.edgeCount ∧ g.nodes ⊆ h.nodes ∧
      ∀ source target, g.hasEdge source target = true → h.hasEdge source target = true := by
  simp only [same, Bool.and_eq_true, decide_eq_true_eq, List.all_eq_true, contains_iff, and_assoc]
  refine and_congr_right fun _ => and_congr_right fun _ => and_congr_right fun _ => ?_
  constructor
  · intro each source target edge
    have known := (mem_of_hasEdge edge).1
    exact each source known target ((mem_successors_iff known).mpr edge)
  · intro each source known target next
    exact each source target ((mem_successors_iff known).mp next)

theorem eachEdge_indexed {g : Graph N} {passes : N → N → Bool} :
    g.indexed.eachEdge passes = true ↔
      ∀ source target, g.hasEdge source target = true → passes source target = true := by
  have nodes : g.indexed.nodes = g.nodes := rfl
  simp only [IndexedGraph.eachEdge, List.all_eq_true, nodes]
  constructor
  · intro each source target edge
    obtain ⟨s, t, source_here, target_here, linked⟩ := hasEdge_iff_positions.mp edge
    obtain ⟨vertex, here⟩ : ∃ vertex, g.vertices[s]? = some vertex :=
      ⟨_, List.getElem?_eq_getElem (lt_of_mem_targetsAt linked).1⟩
    have listed : (g.targetsAt s, s) ∈ g.indexed.targets.zipIdx := by
      rw [List.mem_zipIdx_iff_getElem?, targetsAt_eq here]
      simp [indexed, here]
    have found := each _ listed t linked
    simpa only [source_here, target_here] using found
  · intro each row listed target linked
    have here : row.1 = g.targetsAt row.2 := by
      rw [← row_targets, IndexedGraph.row, List.mem_zipIdx_iff_getElem?.mp listed]
      rfl
    rw [here] at linked
    obtain ⟨source_bound, target_bound⟩ := lt_of_mem_targetsAt linked
    obtain ⟨source, source_here⟩ := node_of_lt source_bound
    obtain ⟨other, target_here⟩ := node_of_lt target_bound
    simp only [source_here, target_here]
    exact each source other ((hasEdge_iff source_here target_here).mpr linked)

theorem same_indexed (g h : Graph N) : g.indexed.same h.indexed = g.same h := by
  have node_count (g : Graph N) : g.indexed.nodeCount = g.nodeCount := g.nodes_length
  have nodes : g.indexed.nodes.all h.indexed.contains = true ↔ g.nodes ⊆ h.nodes := by
    rw [List.all_eq_true]
    simp only [contains_indexed, contains_iff]
    rfl
  have edges : g.indexed.eachEdge h.indexed.hasEdge = true ↔
      ∀ source target, g.hasEdge source target = true → h.hasEdge source target = true := by
    simp only [eachEdge_indexed, hasEdge_indexed]
  rw [Bool.eq_iff_iff, same_iff]
  simp only [IndexedGraph.same, Bool.and_eq_true, decide_eq_true_eq, and_assoc, nodes, edges,
    node_count]
  rfl

/-- Graphs are the same if the same values were named and the same pairs put, in any order. -/
theorem Shows.same_iff {g h : Graph N} {left right : List (GraphChange N)} (shows : g.Shows left)
    (other_shows : h.Shows right) :
    g.same h = true ↔ (∀ value, value ∈ mentioned left ↔ value ∈ mentioned right) ∧
      ∀ pair, pair ∈ pairs left ↔ pair ∈ pairs right := by
  have pair_of_edge : (∀ source target, g.hasEdge source target = true →
      h.hasEdge source target = true) ↔ pairs left ⊆ pairs right := by
    simp only [shows.edges, other_shows.edges]
    exact ⟨fun each pair => each pair.1 pair.2, fun each _ _ => @each _⟩
  rw [Graph.same_iff, ← nodes_length, ← nodes_length, shows.nodes, other_shows.nodes,
    shows.edgeCount, other_shows.edgeCount, pair_of_edge]
  constructor
  · rintro ⟨node_count, edge_count, nodes, edges⟩
    -- Distinct items that all occur in a list of the same length leave nothing of it out.
    have node_perm := ((eraseDups_nodup _).subperm nodes).perm_of_length_le
      (Nat.le_of_eq node_count.symm)
    have edge_perm := ((eraseDups_nodup _).subperm edges).perm_of_length_le
      (Nat.le_of_eq edge_count.symm)
    exact ⟨fun _ => node_perm.mem_iff, fun _ => edge_perm.mem_iff⟩
  · rintro ⟨nodes, edges⟩
    have node_perm := (List.perm_ext_iff_of_nodup (eraseDups_nodup _) (eraseDups_nodup _)).mpr nodes
    have edge_perm := (List.perm_ext_iff_of_nodup (eraseDups_nodup _) (eraseDups_nodup _)).mpr edges
    exact ⟨node_perm.length_eq, edge_perm.length_eq, node_perm.subset, edge_perm.subset⟩

end Graph

namespace IndexedGraph

structure SameContents (g h : IndexedGraph N) : Prop where
  nodes : ∀ value, value ∈ g.nodes ↔ value ∈ h.nodes
  edges : ∀ source ∈ g.nodes, ∀ target ∈ g.nodes,
    g.hasEdge source target = h.hasEdge source target

theorem sameContents_indexed {g h : Graph N} {left right : List (GraphChange N)}
    (shows : g.Shows left) (other_shows : h.Shows right) :
    g.indexed.SameContents h.indexed ↔
      (∀ value, value ∈ mentioned left ↔ value ∈ mentioned right) ∧
        ∀ pair, pair ∈ pairs left ↔ pair ∈ pairs right := by
  have nodes_show (value : N) : value ∈ g.indexed.nodes ↔ value ∈ mentioned left := by
    rw [← shows.nodes]
    rfl
  have other_nodes_show (value : N) : value ∈ h.indexed.nodes ↔ value ∈ mentioned right := by
    rw [← other_shows.nodes]
    rfl
  have agree_iff (source target : N) :
      g.indexed.hasEdge source target = h.indexed.hasEdge source target ↔
        ((source, target) ∈ pairs left ↔ (source, target) ∈ pairs right) := by
    rw [Graph.hasEdge_indexed, Graph.hasEdge_indexed, Bool.eq_iff_iff, shows.edges,
      other_shows.edges]
  constructor
  · rintro ⟨nodes, edges⟩
    have named (value : N) : value ∈ mentioned left ↔ value ∈ mentioned right := by
      rw [← nodes_show, ← other_nodes_show]
      exact nodes value
    refine ⟨named, fun ⟨source, target⟩ => ?_⟩
    -- Outside the common nodes neither graph has an edge.
    by_cases known : source ∈ mentioned left ∧ target ∈ mentioned left
    · exact (agree_iff source target).mp
        (edges source ((nodes_show source).mpr known.1) target ((nodes_show target).mpr known.2))
    · constructor
      · intro put
        have ends := Graph.mem_of_hasEdge ((shows.edges source target).mpr put)
        rw [shows.nodes] at ends
        exact absurd ends known
      · intro put
        have ends := Graph.mem_of_hasEdge ((other_shows.edges source target).mpr put)
        rw [other_shows.nodes, ← named, ← named] at ends
        exact absurd ends known
  · rintro ⟨named, put⟩
    constructor
    · intro value
      rw [nodes_show, other_nodes_show]
      exact named value
    · intro source _ target _
      exact (agree_iff source target).mpr (put (source, target))

/-- Whatever calls made two graphs, they are the same exactly if they have the same contents. That
    is so if the same values were named and the same pairs put, in any order and however often. -/
theorem same_exactly_by_contents :
    (∀ left right : List (GraphChange N),
      ((after left).same (after right) = true ↔ (after left).SameContents (after right)) ∧
      ((after left).same (after right) = true ↔
        (∀ value, value ∈ mentioned left ↔ value ∈ mentioned right) ∧
          ∀ pair, pair ∈ pairs left ↔ pair ∈ pairs right)) ∧
    Equivalence fun left right : List (GraphChange N) =>
      (after left).same (after right) = true := by
  have by_calls (left right : List (GraphChange N)) : (after left).same (after right) = true ↔
      (∀ value, value ∈ mentioned left ↔ value ∈ mentioned right) ∧
        ∀ pair, pair ∈ pairs left ↔ pair ∈ pairs right := by
    rw [Graph.indexed_after, Graph.indexed_after, Graph.same_indexed]
    exact (Graph.after_shows left).same_iff (Graph.after_shows right)
  refine ⟨fun left right => ⟨?_, by_calls left right⟩, ?_⟩
  · rw [by_calls, Graph.indexed_after, Graph.indexed_after]
    exact (sameContents_indexed (Graph.after_shows left) (Graph.after_shows right)).symm
  · constructor
    · intro calls
      exact (by_calls calls calls).mpr ⟨fun _ => Iff.rfl, fun _ => Iff.rfl⟩
    · intro left right same
      obtain ⟨named, put⟩ := (by_calls left right).mp same
      exact (by_calls right left).mpr ⟨fun value => (named value).symm, fun pair => (put pair).symm⟩
    · intro left middle right first second
      obtain ⟨named, put⟩ := (by_calls left middle).mp first
      obtain ⟨named_next, put_next⟩ := (by_calls middle right).mp second
      exact (by_calls left right).mpr ⟨fun value => (named value).trans (named_next value),
        fun pair => (put pair).trans (put_next pair)⟩

/-- Neither the order nor the counts decide: two graphs are the same, and two as large are not. -/
example :
    (after [.node "b", .edge "a" "b"]).same (after [.edge "a" "b", .edge "a" "b"]) = true ∧
      (after [.edge "a" "b"]).same (after [.edge "b" "a"]) = false := by
  decide

end IndexedGraph
end EntityCatalog
