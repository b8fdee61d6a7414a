import EntityCatalog.Proofs.Graph.Contents

/- The walk visits every position once and nothing but positions, whatever cycles there are. So the
   list of edges that follows it leaves no edge out and names none of them twice, and the nodes and the
   edges together make the same graph again. -/
namespace EntityCatalog
variable {N : Type}

namespace Graph

theorem mem_visit {g : Graph N} {visited stack : List Nat} {i : Nat}
    (given : i ∈ visited ∨ i ∈ stack ∧ i < g.nodeCount) : i ∈ g.visit visited stack := by
  -- Nothing visited is lost, and everything on the stack is visited.
  fun_induction visit g visited stack with
  | case1 visited =>
    rcases given with old | ⟨waiting, -⟩
    · exact old
    · simp at waiting
  | case2 visited current stack seen ih =>
    apply ih
    rcases given with old | ⟨waiting, bound⟩
    · exact Or.inl old
    · rcases List.mem_cons.mp waiting with here | later
      · rw [here]
        exact Or.inl (by simpa using seen)
      · exact Or.inr ⟨later, bound⟩
  | case3 visited current stack seen inside ih =>
    apply ih
    rcases given with old | ⟨waiting, bound⟩
    · exact Or.inl (List.mem_cons_of_mem current old)
    · rcases List.mem_cons.mp waiting with here | later
      · exact Or.inl (by simp [here])
      · exact Or.inr ⟨List.mem_append_right _ later, bound⟩
  | case4 visited current stack seen outside ih =>
    apply ih
    rcases given with old | ⟨waiting, bound⟩
    · exact Or.inl old
    · rcases List.mem_cons.mp waiting with here | later
      · rw [here] at bound
        exact absurd bound outside
      · exact Or.inr ⟨later, bound⟩

def visits (g : Graph N) (starts visited : List Nat) : List Nat :=
  starts.foldl (fun visited start => g.visit visited [start]) visited

theorem mem_visits {g : Graph N} {starts visited : List Nat} {i : Nat}
    (given : i ∈ visited ∨ i ∈ starts ∧ i < g.nodeCount) :
    i ∈ g.visits starts visited := by
  induction starts generalizing visited with
  | nil => simpa [visits] using given
  | cons start rest ih =>
    apply ih
    rcases given with old | ⟨waiting, bound⟩
    · exact Or.inl (mem_visit (Or.inl old))
    · rcases List.mem_cons.mp waiting with here | later
      · exact Or.inl (mem_visit (Or.inr ⟨by simp [here], bound⟩))
      · exact Or.inr ⟨later, bound⟩

theorem mem_visitOrder {g : Graph N} {i : Nat} (bound : i < g.nodeCount) : i ∈ g.visitOrder :=
  List.mem_reverse.mpr
    (mem_visits (Or.inr ⟨List.mem_append_right _ (List.mem_range.mpr bound), bound⟩))

theorem mem_edgeIndices {g : Graph N} {source target : Nat} :
    (source, target) ∈ g.edgeIndices ↔ target ∈ g.targetsAt source := by
  have from_one {k : Nat} :
      (source, target) ∈ g.edgesFrom k ↔ k = source ∧ target ∈ g.targetsAt k := by
    simp only [edgesFrom, List.mem_map, Prod.mk.injEq]
    constructor
    · rintro ⟨found, member, rfl, rfl⟩
      exact ⟨rfl, member⟩
    · rintro ⟨rfl, member⟩
      exact ⟨target, member, rfl, rfl⟩
  simp only [edgeIndices, List.mem_flatMap, from_one]
  constructor
  · rintro ⟨k, -, rfl, member⟩
    exact member
  · intro member
    exact ⟨source, mem_visitOrder (lt_of_mem_targetsAt member).1, rfl, member⟩

theorem lt_of_mem_edgeIndices {g : Graph N} {edge : Nat × Nat} (member : edge ∈ g.edgeIndices) :
    edge.1 < g.nodeCount ∧ edge.2 < g.nodeCount :=
  lt_of_mem_targetsAt (mem_edgeIndices.mp member)

def nodesOf (g : Graph N) (edge : Nat × Nat) : Option (N × N) :=
  match g.nodes[edge.1]?, g.nodes[edge.2]? with
  | some source, some target => some (source, target)
  | _, _ => none

theorem edges_eq (g : Graph N) : g.edges = g.edgeIndices.filterMap g.nodesOf := rfl

variable [DecidableEq N]

theorem withNodes_vertices (g : Graph N) {nodes : List N} (distinct : (g.nodes ++ nodes).Nodup) :
    (nodes.foldl withNode g).vertices = g.vertices ++ nodes.map fun node => ⟨node, []⟩ := by
  induction nodes generalizing g with
  | nil => simp
  | cons node rest ih =>
    have absent : node ∉ g.nodes := fun member =>
      (List.nodup_append.mp distinct).2.2 node member node (by simp) rfl
    have placed := withNode_new absent
    have nodes_placed : (g.withNode node).nodes = g.nodes ++ [node] := by
      simp [nodes, placed]
    rw [List.foldl_cons, ih _ (by simpa [nodes_placed] using distinct), placed]
    simp

theorem withEdges_spec {g : Graph N} {indices : List (Nat × Nat)}
    (in_range : ∀ edge ∈ indices, edge.1 < g.nodeCount ∧ edge.2 < g.nodeCount) {h : Graph N}
    (same_nodes : h.nodes = g.nodes) :
    let made := (indices.filterMap g.nodesOf).foldl (fun h edge => h.withEdge edge.1 edge.2) h
    made.nodes = g.nodes ∧
      ∀ i k, k ∈ made.targetsAt i ↔ k ∈ h.targetsAt i ∨ (i, k) ∈ indices := by
  induction indices generalizing h with
  | nil => exact ⟨same_nodes, by simp⟩
  | cons edge rest ih =>
    obtain ⟨s, t⟩ := edge
    obtain ⟨s_bound, t_bound⟩ := in_range (s, t) (by simp)
    obtain ⟨source, source_here⟩ := node_of_lt s_bound
    obtain ⟨target, target_here⟩ := node_of_lt t_bound
    have ends : g.nodesOf (s, t) = some (source, target) := by
      simp [nodesOf, source_here, target_here]
    rw [List.filterMap_cons, ends, List.foldl_cons]
    rw [← same_nodes] at source_here target_here
    have kept :=
      withEdge_nodes (List.mem_of_getElem? source_here) (List.mem_of_getElem? target_here)
    obtain ⟨nodes, targets⟩ :=
      ih (fun edge member => in_range edge (by simp [member])) (kept.trans same_nodes)
    refine ⟨nodes, fun i k => ?_⟩
    rw [targets, mem_targetsAt_withEdge source_here target_here, List.mem_cons, or_assoc]

@[simp] theorem ofLists_self (g : Graph N) : ofLists g.nodes g.edges = g := by
  have distinct : (empty.nodes ++ g.nodes).Nodup := g.distinct
  have start := withNodes_vertices empty distinct
  have start_nodes : (g.nodes.foldl withNode empty).nodes = g.nodes := by
    change (g.nodes.foldl withNode empty).vertices.map Vertex.value = g.nodes
    rw [start, List.map_append, List.map_map]
    exact List.map_id _
  have start_targets (i : Nat) : (g.nodes.foldl withNode empty).targetsAt i = [] := by
    rw [targetsAt, start]
    simp only [empty, List.nil_append, List.getElem?_map]
    cases g.nodes[i]? <;> rfl
  obtain ⟨made_nodes, made_targets⟩ :=
    withEdges_spec (fun edge => lt_of_mem_edgeIndices) start_nodes
  refine eq_of_targets made_nodes fun i target => ?_
  rw [ofLists, edges_eq, made_targets, start_targets, mem_edgeIndices]
  simp

end Graph

/-! ### The list of all edges -/

namespace Graph

theorem visit_nodup {g : Graph N} {visited stack : List Nat} (distinct : visited.Nodup) :
    (g.visit visited stack).Nodup := by
  -- A position is put among those visited only when it is not there yet.
  fun_induction visit g visited stack with
  | case1 visited => exact distinct
  | case2 visited current stack seen ih => exact ih distinct
  | case3 visited current stack unseen inside ih =>
    apply ih
    refine List.nodup_cons.mpr ⟨?_, distinct⟩
    intro member
    exact unseen (by simpa using member)
  | case4 visited current stack unseen outside ih => exact ih distinct

theorem visit_in_range {g : Graph N} {visited stack : List Nat}
    (known : ∀ i ∈ visited, i < g.nodeCount) : ∀ i ∈ g.visit visited stack, i < g.nodeCount := by
  fun_induction visit g visited stack with
  | case1 visited => exact known
  | case2 visited current stack seen ih => exact ih known
  | case3 visited current stack unseen inside ih =>
    apply ih
    intro i member
    rcases List.mem_cons.mp member with here | old
    · rw [here]
      exact inside
    · exact known i old
  | case4 visited current stack unseen outside ih => exact ih known

theorem visits_spec {g : Graph N} (starts : List Nat) {visited : List Nat}
    (distinct : visited.Nodup) (known : ∀ i ∈ visited, i < g.nodeCount) :
    (g.visits starts visited).Nodup ∧ ∀ i ∈ g.visits starts visited, i < g.nodeCount := by
  induction starts generalizing visited with
  | nil => exact ⟨distinct, known⟩
  | cons start rest ih => exact ih (visit_nodup distinct) (visit_in_range known)

theorem visitOrder_nodup (g : Graph N) : g.visitOrder.Nodup :=
  (List.reverse_perm _).nodup_iff.mpr (visits_spec _ List.nodup_nil (by simp)).1

theorem visitOrder_perm (g : Graph N) : g.visitOrder.Perm (List.range g.nodeCount) := by
  refine (List.perm_ext_iff_of_nodup g.visitOrder_nodup List.nodup_range).mpr ?_
  intro i
  rw [List.mem_range]
  constructor
  · intro member
    exact (visits_spec _ List.nodup_nil (by simp)).2 i (List.mem_reverse.mp member)
  · exact mem_visitOrder

theorem edgesFrom_eq (g : Graph N) (source : Nat) :
    g.edgesFrom source = (g.targetsAt source).map fun target => (source, target) := rfl

theorem edgesFrom_nodup (g : Graph N) (source : Nat) : (g.edgesFrom source).Nodup := by
  rw [edgesFrom_eq]
  refine List.pairwise_map.mpr ((g.targetsAt_ascending source).imp ?_)
  intro first later less same
  have equal := congrArg Prod.snd same
  exact absurd equal (Nat.ne_of_lt less)

theorem edgeIndices_nodup (g : Graph N) : g.edgeIndices.Nodup := by
  refine List.pairwise_flatMap.mpr ⟨fun source _ => g.edgesFrom_nodup source, ?_⟩
  refine g.visitOrder_nodup.imp ?_
  intro source other apart edge at_source another at_other same
  rw [edgesFrom_eq] at at_source at_other
  obtain ⟨target, -, rfl⟩ := List.mem_map.mp at_source
  obtain ⟨further, -, rfl⟩ := List.mem_map.mp at_other
  exact apart (congrArg Prod.fst same)

theorem targets_by_position (g : Graph N) :
    (List.range g.nodeCount).map g.targetsAt = g.vertices.map Vertex.targets := by
  apply List.ext_getElem
  · simp [nodeCount]
  · intro i bound other_bound
    have inside : i < g.vertices.length := by simpa using other_bound
    have here : g.vertices[i]? = some g.vertices[i] := List.getElem?_eq_getElem inside
    simp [targetsAt_eq here]

@[simp] theorem edgeIndices_length (g : Graph N) : g.edgeIndices.length = g.edgeCount := by
  -- No edge is listed twice and none is left out, so the list is as long as the number of edges.
  have rearranged : g.edgeIndices.Perm ((List.range g.nodeCount).flatMap g.edgesFrom) :=
    g.visitOrder_perm.flatMap_right g.edgesFrom
  have targets : ((List.range g.nodeCount).flatMap g.edgesFrom).map Prod.snd =
      g.vertices.flatMap Vertex.targets := by
    rw [List.map_flatMap, List.flatMap_def, List.flatMap_def, ← targets_by_position]
    congr 1
    apply List.map_congr_left
    intro source _
    rw [edgesFrom_eq, List.map_map]
    exact List.map_id _
  rw [rearranged.length_eq, edgeCount, ← targets, List.length_map]

end Graph

end EntityCatalog
