import EntityCatalog.Graph.Indexed
import EntityCatalog.Proofs.Graph.Changes

/- The redundant form of a graph. Each graph has exactly one, in which the index and both families of
   rows follow from the nodes and the edges; changing the graph and changing its redundant form are
   the same change, and every question has the same answer in both. -/
namespace EntityCatalog
variable {α N : Type}

theorem filterMap_range_filter (items : List α) (keep : α → Bool) :
    (List.range items.length).filterMap (fun i => items[i]?.filter keep) = items.filter keep := by
  induction items with
  | nil => rfl
  | cons item rest ih =>
    rw [List.length_cons, List.range_succ_eq_map, List.filterMap_cons, List.filterMap_map]
    simp only [List.getElem?_cons_zero, Function.comp_def, List.getElem?_cons_succ, ih,
      List.filter_cons, Option.filter_some]
    cases keep item <;> rfl

/-- Ascending positions name items in the order of the list, so the positions of all items of one
    kind name what a filter leaves of the list. -/
theorem filterMap_positions {items : List α} {chosen : List Nat} {keep : α → Bool}
    (ascending : chosen.Pairwise (· < ·))
    (picks : ∀ k, k ∈ chosen ↔ ∃ item, items[k]? = some item ∧ keep item = true) :
    (chosen.filterMap fun i => items[i]?) = items.filter keep := by
  have same : chosen = (List.range items.length).filter fun i => items[i]?.any keep := by
    apply ascending_ext ascending (List.pairwise_lt_range.filter _)
    intro k
    simp only [picks, List.mem_filter, List.mem_range, Option.any_eq_true]
    constructor
    · intro given
      obtain ⟨item, here, kept⟩ := given
      exact ⟨(List.getElem?_eq_some_iff.mp here).1, item, here, kept⟩
    · exact And.right
  rw [same, List.filterMap_filter, ← filterMap_range_filter]
  congr 1
  funext i
  cases items[i]? <;> rfl

theorem length_positions {items : List α} {chosen : List Nat} {keep : α → Bool}
    (ascending : chosen.Pairwise (· < ·))
    (picks : ∀ k, k ∈ chosen ↔ ∃ item, items[k]? = some item ∧ keep item = true) :
    chosen.length = (items.filter keep).length := by
  rw [← filterMap_positions ascending picks, List.length_filterMap_eq_countP]
  refine (List.countP_eq_length.mpr ?_).symm
  intro k member
  obtain ⟨item, here, -⟩ := (picks k).mp member
  rw [here]
  rfl

namespace Graph

def sourcesAt (g : Graph N) (target : Nat) : List Nat :=
  (List.range g.nodeCount).filter fun i => (g.targetsAt i).contains target

def indexed (g : Graph N) : IndexedGraph N where
  nodes := g.nodes
  index := g.nodes.zipIdx
  targets := g.vertices.map Vertex.targets
  sources := (List.range g.nodeCount).map g.sourcesAt
  edgeCount := g.edgeCount

@[simp] theorem mem_sourcesAt {g : Graph N} {source target : Nat} :
    source ∈ g.sourcesAt target ↔ target ∈ g.targetsAt source := by
  simp only [sourcesAt, List.mem_filter, List.mem_range, List.contains_iff_mem]
  constructor
  · exact And.right
  · intro member
    exact ⟨(lt_of_mem_targetsAt member).1, member⟩

theorem sourcesAt_ascending (g : Graph N) (target : Nat) :
    (g.sourcesAt target).Pairwise (· < ·) := List.pairwise_lt_range.filter _

theorem sourcesAt_congr {g h : Graph N} {target : Nat}
    (same : ∀ source, target ∈ g.targetsAt source ↔ target ∈ h.targetsAt source) :
    g.sourcesAt target = h.sourcesAt target := by
  apply ascending_ext (g.sourcesAt_ascending target) (h.sourcesAt_ascending target)
  intro source
  rw [mem_sourcesAt, mem_sourcesAt]
  exact same source

theorem sourcesAt_outside {g : Graph N} {target : Nat} (outside : g.nodeCount ≤ target) :
    g.sourcesAt target = [] := by
  apply List.eq_nil_iff_forall_not_mem.mpr
  intro source member
  have inside := (lt_of_mem_targetsAt (mem_sourcesAt.mp member)).2
  omega

theorem row_targets (g : Graph N) (i : Nat) :
    IndexedGraph.row g.indexed.targets i = g.targetsAt i := by
  simp only [IndexedGraph.row, indexed, targetsAt, List.getElem?_map]
  cases g.vertices[i]? <;> rfl

theorem row_sources (g : Graph N) (i : Nat) :
    IndexedGraph.row g.indexed.sources i = g.sourcesAt i := by
  simp only [IndexedGraph.row, indexed, List.getElem?_map]
  by_cases inside : i < g.nodeCount
  · rw [List.getElem?_range inside]
    rfl
  · rw [List.getElem?_eq_none (by simpa using inside), sourcesAt_outside (by omega)]
    rfl

variable [DecidableEq N]

theorem position?_indexed {g : Graph N} {value : N} {i : Nat} :
    g.indexed.position? value = some i ↔ g.nodes[i]? = some value := by
  unfold IndexedGraph.position?
  constructor
  · intro found
    obtain ⟨entry, hit, rfl⟩ := Option.map_eq_some_iff.mp found
    have same : entry.1 = value := by simpa using List.find?_some hit
    rw [← same]
    exact List.mem_zipIdx_iff_getElem?.mp (List.mem_of_find?_eq_some hit)
  · intro here
    have member : (value, i) ∈ g.nodes.zipIdx := List.mem_zipIdx_iff_getElem?.mpr here
    cases found : g.nodes.zipIdx.find? fun entry => entry.1 = value with
    | none =>
      have missed := List.find?_eq_none.mp found _ member
      simp at missed
    | some entry =>
      have same : entry.1 = value := by simpa using List.find?_some found
      have there := List.mem_zipIdx_iff_getElem?.mp (List.mem_of_find?_eq_some found)
      rw [same] at there
      have places : entry.2 = i :=
        (position_of_getElem? there).symm.trans (position_of_getElem? here)
      simp [indexed, found, places]

theorem position?_indexed_none {g : Graph N} {value : N} :
    g.indexed.position? value = none ↔ value ∉ g.nodes := by
  constructor
  · intro missing member
    obtain ⟨i, here⟩ := List.getElem?_of_mem member
    rw [position?_indexed.mpr here] at missing
    cases missing
  · intro absent
    cases found : g.indexed.position? value with
    | none => rfl
    | some i => exact absurd (List.mem_of_getElem? (position?_indexed.mp found)) absent

theorem position_new {g : Graph N} {value : N} (absent : value ∉ g.nodes) :
    (g.withNode value).nodes[g.nodeCount]? = some value := by
  rw [nodes_withNode, if_neg absent, ← nodes_length]
  simp

theorem inserted_indexed {g : Graph N} {value : N} (absent : value ∉ g.nodes) :
    g.indexed.inserted value = (g.withNode value).indexed := by
  have nodes : (g.withNode value).nodes = g.nodes ++ [value] := by
    rw [nodes_withNode, if_neg absent]
  have count : (g.withNode value).nodeCount = g.nodeCount + 1 := by
    simp [nodeCount, withNode_new absent]
  have sources (target : Nat) : (g.withNode value).sourcesAt target = g.sourcesAt target :=
    sourcesAt_congr fun source => by rw [targetsAt_withNode]
  apply IndexedGraph.ext
  · exact nodes.symm
  · change g.nodes.zipIdx ++ [(value, g.nodes.length)] = (g.withNode value).nodes.zipIdx
    rw [nodes, List.zipIdx_append, Nat.zero_add]
    rfl
  · simp [IndexedGraph.inserted, indexed, withNode_new absent]
  · change (List.range g.nodeCount).map g.sourcesAt ++ [[]] =
      (List.range (g.withNode value).nodeCount).map (g.withNode value).sourcesAt
    rw [count, List.range_succ, List.map_append, List.map_congr_left fun i _ => sources i]
    simp [sources, sourcesAt_outside]
  · exact (edgeCount_withNode g value).symm

@[simp] theorem addNode_indexed (g : Graph N) (value : N) :
    g.indexed.addNode value = ((g.withNode value).indexed, !g.contains value) := by
  unfold IndexedGraph.addNode
  cases found : g.indexed.position? value with
  | none =>
    have absent := position?_indexed_none.mp found
    have unknown : g.contains value = false :=
      Bool.eq_false_iff.mpr fun known => absent (contains_iff.mp known)
    rw [unknown, ← inserted_indexed absent]
    rfl
  | some i =>
    have known := List.mem_of_getElem? (position?_indexed.mp found)
    rw [withNode_of_mem known, contains_iff.mpr known]
    rfl

theorem positioned_indexed (g : Graph N) (value : N) :
    ∃ i, g.indexed.positioned value = ((g.withNode value).indexed, i) ∧
      (g.withNode value).nodes[i]? = some value := by
  unfold IndexedGraph.positioned
  cases found : g.indexed.position? value with
  | none =>
    have absent := position?_indexed_none.mp found
    refine ⟨g.nodeCount, ?_, position_new absent⟩
    rw [← inserted_indexed absent, ← nodes_length]
    rfl
  | some i =>
    have here := position?_indexed.mp found
    rw [withNode_of_mem (List.mem_of_getElem? here)]
    exact ⟨i, rfl, here⟩

theorem withEdge_of_hasEdge {g : Graph N} {source target : N}
    (edge : g.hasEdge source target = true) : g.withEdge source target = g := by
  obtain ⟨s, t, source_here, target_here, linked⟩ := hasEdge_iff_positions.mp edge
  obtain ⟨source_known, target_known⟩ := mem_of_hasEdge edge
  apply eq_of_targets (withEdge_nodes source_known target_known)
  intro i k
  rw [mem_targetsAt_withEdge source_here target_here]
  constructor
  · intro given
    rcases given with old | added
    · exact old
    · cases added
      exact linked
  · exact Or.inl

theorem targets_withEdge {g : Graph N} {source target : N} {s t : Nat}
    (source_here : g.nodes[s]? = some source) (target_here : g.nodes[t]? = some target) :
    (g.withEdge source target).vertices.map Vertex.targets =
      (g.vertices.map Vertex.targets).modify s (insertAscending t) := by
  have same : (g.withNode source).withNode target = g := by
    rw [withNode_of_mem (List.mem_of_getElem? source_here),
      withNode_of_mem (List.mem_of_getElem? target_here)]
  have here : ((g.withNode source).withNode target).nodes[s]? = some source := by
    rw [same]
    exact source_here
  unfold withEdge
  rw [targets_linked here, same, position_of_getElem? target_here]

theorem sourcesAt_withEdge {g : Graph N} {source target : N} {s t : Nat}
    (source_here : g.nodes[s]? = some source) (target_here : g.nodes[t]? = some target) (k : Nat) :
    (g.withEdge source target).sourcesAt k =
      if t = k then insertAscending s (g.sourcesAt k) else g.sourcesAt k := by
  split
  · rename_i same
    apply ascending_ext (sourcesAt_ascending _ k)
      (insertAscending_pairwise (g.sourcesAt_ascending k))
    intro i
    rw [mem_insertAscending, mem_sourcesAt, mem_sourcesAt,
      mem_targetsAt_withEdge source_here target_here, Prod.mk.injEq, same]
    simp [or_comm]
  · rename_i other
    apply sourcesAt_congr
    intro i
    rw [mem_targetsAt_withEdge source_here target_here, Prod.mk.injEq]
    simp [Ne.symm other]

theorem sources_withEdge {g : Graph N} {source target : N} {s t : Nat}
    (source_here : g.nodes[s]? = some source) (target_here : g.nodes[t]? = some target) :
    (g.withEdge source target).indexed.sources =
      g.indexed.sources.modify t (insertAscending s) := by
  have count : (g.withEdge source target).nodeCount = g.nodeCount := by
    rw [← nodes_length, withEdge_nodes (List.mem_of_getElem? source_here)
      (List.mem_of_getElem? target_here), nodes_length]
  simp only [indexed, count]
  apply List.ext_getElem?
  intro k
  rw [List.getElem?_modify, List.getElem?_map, List.getElem?_map]
  by_cases inside : k < g.nodeCount
  · rw [List.getElem?_range inside]
    simp only [Option.map_some, Option.map_eq_map, sourcesAt_withEdge source_here target_here]
  · rw [List.getElem?_eq_none (by simpa using inside)]
    rfl

theorem linked_indexed {g : Graph N} {source target : N} {s t : Nat}
    (source_here : g.nodes[s]? = some source) (target_here : g.nodes[t]? = some target) :
    g.indexed.linked s t = ((g.withEdge source target).indexed, !g.hasEdge source target) := by
  have source_known := List.mem_of_getElem? source_here
  have target_known := List.mem_of_getElem? target_here
  unfold IndexedGraph.linked
  rw [row_targets]
  cases edge : g.hasEdge source target with
  | true =>
    have member := (hasEdge_iff source_here target_here).mp edge
    rw [if_pos (List.contains_iff_mem.mpr member), withEdge_of_hasEdge edge]
    rfl
  | false =>
    have absent : t ∉ g.targetsAt s := by
      intro member
      rw [(hasEdge_iff source_here target_here).mpr member] at edge
      cases edge
    have nodes := withEdge_nodes source_known target_known
    rw [if_neg (by simpa using absent)]
    refine Prod.ext (IndexedGraph.ext ?_ ?_ ?_ ?_ ?_) rfl
    · exact nodes.symm
    · exact congrArg List.zipIdx nodes.symm
    · exact (targets_withEdge source_here target_here).symm
    · exact (sources_withEdge source_here target_here).symm
    · change g.edgeCount + 1 = (g.withEdge source target).edgeCount
      rw [edgeCount_withEdge, edge]
      rfl

@[simp] theorem putEdge_indexed (g : Graph N) (source target : N) :
    g.indexed.putEdge source target =
      ((g.withEdge source target).indexed, !g.hasEdge source target) := by
  obtain ⟨s, source_placed, source_here⟩ := positioned_indexed g source
  obtain ⟨t, target_placed, target_here⟩ := positioned_indexed (g.withNode source) target
  obtain ⟨s_bound, -⟩ := List.getElem?_eq_some_iff.mp source_here
  have still_here : ((g.withNode source).withNode target).nodes[s]? = some source := by
    rw [getElem?_nodes_withNode target (by rw [← nodes_length]; exact s_bound)]
    exact source_here
  unfold IndexedGraph.putEdge
  simp only [source_placed, target_placed]
  rw [linked_indexed still_here target_here, ← withEdge_eq, hasEdge_withNode, hasEdge_withNode]

@[simp] theorem contains_indexed (g : Graph N) (value : N) :
    g.indexed.contains value = g.contains value := by
  rw [Bool.eq_iff_iff, contains_iff, IndexedGraph.contains, Option.isSome_iff_exists]
  simp only [position?_indexed]
  exact List.mem_iff_getElem?.symm

@[simp] theorem hasEdge_indexed (g : Graph N) (source target : N) :
    g.indexed.hasEdge source target = g.hasEdge source target := by
  rw [Bool.eq_iff_iff, hasEdge_iff_positions]
  unfold IndexedGraph.hasEdge
  constructor
  · intro edge
    split at edge
    · rename_i s t source_found target_found
      rw [row_targets, List.contains_iff_mem] at edge
      exact ⟨s, t, position?_indexed.mp source_found, position?_indexed.mp target_found, edge⟩
    · cases edge
  · intro given
    obtain ⟨s, t, source_here, target_here, linked⟩ := given
    simp only [position?_indexed.mpr source_here, position?_indexed.mpr target_here, row_targets,
      List.contains_iff_mem]
    exact linked

theorem rowOf_known {g : Graph N} {i : Nat} {value : N} (here : g.nodes[i]? = some value)
    (rows : List (List Nat)) : g.indexed.rowOf rows value = IndexedGraph.row rows i := by
  rw [IndexedGraph.rowOf, position?_indexed.mpr here]
  rfl

theorem rowOf_unknown {g : Graph N} {value : N} (absent : value ∉ g.nodes)
    (rows : List (List Nat)) : g.indexed.rowOf rows value = [] := by
  rw [IndexedGraph.rowOf, position?_indexed_none.mpr absent]
  rfl

/-- If rows hold the positions of what is related to the node of each position, then the row of a
    value holds the positions of what is related to it. -/
theorem rowOf_picks {g : Graph N} {value : N} {rows : List (List Nat)} {related : N → Bool}
    (ascending : ∀ i, (IndexedGraph.row rows i).Pairwise (· < ·))
    (inside : ∀ i k, k ∈ IndexedGraph.row rows i → k < g.nodeCount)
    (linked : ∀ i k other, g.nodes[i]? = some value → g.nodes[k]? = some other →
      (related other = true ↔ k ∈ IndexedGraph.row rows i))
    (known : ∀ other, related other = true → value ∈ g.nodes) :
    (g.indexed.rowOf rows value).Pairwise (· < ·) ∧
      ∀ k, k ∈ g.indexed.rowOf rows value ↔
        ∃ other, g.nodes[k]? = some other ∧ related other = true := by
  by_cases member : value ∈ g.nodes
  · obtain ⟨i, here⟩ := List.getElem?_of_mem member
    rw [rowOf_known here]
    refine ⟨ascending i, fun k => ?_⟩
    constructor
    · intro listed
      obtain ⟨other, there⟩ := node_of_lt (inside i k listed)
      exact ⟨other, there, (linked i k other here there).mpr listed⟩
    · intro given
      obtain ⟨other, there, related_to⟩ := given
      exact (linked i k other here there).mp related_to
  · have none (other : N) : related other ≠ true := fun given => member (known other given)
    simp [rowOf_unknown member, none]

theorem rowOf_targets (g : Graph N) (value : N) :
    (g.indexed.rowOf g.indexed.targets value).Pairwise (· < ·) ∧
      ∀ k, k ∈ g.indexed.rowOf g.indexed.targets value ↔
        ∃ other, g.nodes[k]? = some other ∧ g.hasEdge value other = true := by
  apply rowOf_picks
  · intro i
    rw [row_targets]
    exact g.targetsAt_ascending i
  · intro i k member
    rw [row_targets] at member
    exact (lt_of_mem_targetsAt member).2
  · intro i k other here there
    rw [row_targets]
    exact hasEdge_iff here there
  · intro other edge
    exact (mem_of_hasEdge edge).1

theorem rowOf_sources (g : Graph N) (value : N) :
    (g.indexed.rowOf g.indexed.sources value).Pairwise (· < ·) ∧
      ∀ k, k ∈ g.indexed.rowOf g.indexed.sources value ↔
        ∃ other, g.nodes[k]? = some other ∧ g.hasEdge other value = true := by
  apply rowOf_picks
  · intro i
    rw [row_sources]
    exact g.sourcesAt_ascending i
  · intro i k member
    rw [row_sources, mem_sourcesAt] at member
    exact (lt_of_mem_targetsAt member).1
  · intro i k other here there
    rw [row_sources, mem_sourcesAt]
    exact hasEdge_iff there here
  · intro other edge
    exact (mem_of_hasEdge edge).2

@[simp] theorem successors_indexed (g : Graph N) (value : N) :
    g.indexed.successors value = g.nodes.filter (g.hasEdge value) :=
  filterMap_positions (g.rowOf_targets value).1 (g.rowOf_targets value).2

@[simp] theorem predecessors_indexed (g : Graph N) (value : N) :
    g.indexed.predecessors value = g.nodes.filter fun other => g.hasEdge other value :=
  filterMap_positions (g.rowOf_sources value).1 (g.rowOf_sources value).2

@[simp] theorem outDegree_indexed (g : Graph N) (value : N) :
    g.indexed.outDegree value = (g.nodes.filter (g.hasEdge value)).length :=
  length_positions (g.rowOf_targets value).1 (g.rowOf_targets value).2

@[simp] theorem inDegree_indexed (g : Graph N) (value : N) :
    g.indexed.inDegree value = (g.nodes.filter fun other => g.hasEdge other value).length :=
  length_positions (g.rowOf_sources value).1 (g.rowOf_sources value).2

end Graph
end EntityCatalog
