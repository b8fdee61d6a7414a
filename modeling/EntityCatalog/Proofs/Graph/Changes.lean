import EntityCatalog.Proofs.Graph.Contents

/- What one addition does to a graph: to the list of its nodes, to its edges and to their number.
   A new node goes last and takes part in no edge, and a new edge adds one target to one position,
   once its two nodes are there. -/
namespace EntityCatalog
variable {N : Type}

theorem insertAscending_of_mem {n : Nat} {numbers : List Nat}
    (ascending : numbers.Pairwise (· < ·)) (member : n ∈ numbers) :
    insertAscending n numbers = numbers := by
  apply ascending_ext (insertAscending_pairwise ascending) ascending
  intro k
  rw [mem_insertAscending]
  constructor
  · intro given
    rcases given with same | old
    · rw [same]
      exact member
    · exact old
  · exact Or.inr

theorem length_insertAscending {n : Nat} {numbers : List Nat} (absent : n ∉ numbers) :
    (insertAscending n numbers).length = numbers.length + 1 := by
  induction numbers with
  | nil => rfl
  | cons first rest ih =>
    obtain ⟨apart, later⟩ := List.ne_and_not_mem_of_not_mem_cons absent
    simp only [insertAscending, if_neg apart]
    split
    · rfl
    · rw [List.length_cons, ih later, List.length_cons]

theorem length_flatten_modify {rows : List (List Nat)} {i : Nat} {row : List Nat}
    {change : List Nat → List Nat} (here : rows[i]? = some row)
    (longer : (change row).length = row.length + 1) :
    (rows.modify i change).flatten.length = rows.flatten.length + 1 := by
  induction rows generalizing i with
  | nil => simp at here
  | cons first rest ih =>
    cases i with
    | zero =>
      cases here
      simp only [List.modify_zero_cons, List.flatten_cons, List.length_append, longer]
      omega
    | succ i =>
      have later := ih (by simpa using here)
      simp only [List.modify_succ_cons, List.flatten_cons, List.length_append, later]
      omega

namespace Graph

theorem edgeCount_eq (g : Graph N) :
    g.edgeCount = (g.vertices.map Vertex.targets).flatten.length := by
  rw [edgeCount, List.flatMap_def]

variable [DecidableEq N]

theorem nodes_withNode (g : Graph N) (value : N) :
    (g.withNode value).nodes = if value ∈ g.nodes then g.nodes else g.nodes ++ [value] := by
  split
  · rename_i known
    rw [withNode_of_mem known]
  · rename_i absent
    simp [nodes, withNode_new absent]

@[simp] theorem mem_nodes_withNode {g : Graph N} {value other : N} :
    other ∈ (g.withNode value).nodes ↔ other ∈ g.nodes ∨ other = value := by
  rw [nodes_withNode]
  split
  · rename_i known
    constructor
    · exact Or.inl
    · intro given
      rcases given with old | same
      · exact old
      · rw [same]
        exact known
  · simp

theorem getElem?_nodes_withNode {g : Graph N} {i : Nat} (value : N) (bound : i < g.nodeCount) :
    (g.withNode value).nodes[i]? = g.nodes[i]? := by
  rw [nodes_withNode]
  split
  · rfl
  · rw [List.getElem?_append_left (by rw [nodes_length]; exact bound)]

@[simp] theorem targetsAt_withNode (g : Graph N) (value : N) (i : Nat) :
    (g.withNode value).targetsAt i = g.targetsAt i := by
  by_cases known : value ∈ g.nodes
  · rw [withNode_of_mem known]
  · simp only [targetsAt, withNode_new known, List.getElem?_append]
    split
    · rfl
    · rename_i outside
      rw [List.getElem?_eq_none (Nat.le_of_not_lt outside)]
      cases i - g.vertices.length <;> rfl

theorem edgeCount_withNode (g : Graph N) (value : N) :
    (g.withNode value).edgeCount = g.edgeCount := by
  by_cases known : value ∈ g.nodes
  · rw [withNode_of_mem known]
  · simp [edgeCount, withNode_new known]

theorem withEdge_eq (g : Graph N) (source target : N) :
    g.withEdge source target = ((g.withNode source).withNode target).withEdge source target := by
  have source_known : source ∈ ((g.withNode source).withNode target).nodes :=
    mem_nodes_withNode.mpr (Or.inl (mem_nodes_withNode.mpr (Or.inr rfl)))
  have target_known : target ∈ ((g.withNode source).withNode target).nodes :=
    mem_nodes_withNode.mpr (Or.inr rfl)
  have same : (((g.withNode source).withNode target).withNode source).withNode target =
      (g.withNode source).withNode target := by
    rw [withNode_of_mem source_known, withNode_of_mem target_known]
  unfold withEdge
  simp only [same]

theorem nodes_withEdge (g : Graph N) (source target : N) :
    (g.withEdge source target).nodes = ((g.withNode source).withNode target).nodes :=
  linked_nodes _ _ _

@[simp] theorem mem_nodes_withEdge {g : Graph N} {source target other : N} :
    other ∈ (g.withEdge source target).nodes ↔
      other ∈ g.nodes ∨ other = source ∨ other = target := by
  rw [nodes_withEdge, mem_nodes_withNode, mem_nodes_withNode, or_assoc]

theorem mem_nodes_withNodes {g : Graph N} {nodes : List N} {value : N}
    (member : value ∈ (nodes.foldl withNode g).nodes) : value ∈ g.nodes ∨ value ∈ nodes := by
  induction nodes generalizing g with
  | nil => exact Or.inl member
  | cons node rest ih =>
    rcases ih member with old | later
    · rcases mem_nodes_withNode.mp old with older | same
      · exact Or.inl older
      · exact Or.inr (by simp [same])
    · exact Or.inr (List.mem_cons_of_mem node later)

theorem mem_nodes_withEdges {g : Graph N} {edges : List (N × N)} {value : N}
    (member : value ∈ (edges.foldl (fun g edge => g.withEdge edge.1 edge.2) g).nodes) :
    value ∈ g.nodes ∨ ∃ edge ∈ edges, value = edge.1 ∨ value = edge.2 := by
  induction edges generalizing g with
  | nil => exact Or.inl member
  | cons edge rest ih =>
    rcases ih member with old | ⟨later, at_rest, ends⟩
    · rcases mem_nodes_withEdge.mp old with older | ends
      · exact Or.inl older
      · exact Or.inr ⟨edge, by simp, ends⟩
    · exact Or.inr ⟨later, List.mem_cons_of_mem edge at_rest, ends⟩

theorem mem_nodes_ofLists {nodes : List N} {edges : List (N × N)} {value : N}
    (member : value ∈ (ofLists nodes edges).nodes) :
    value ∈ nodes ∨ ∃ edge ∈ edges, value = edge.1 ∨ value = edge.2 := by
  rcases mem_nodes_withEdges member with listed | found
  · rcases mem_nodes_withNodes listed with none | found
    · cases none
    · exact Or.inl found
  · exact Or.inr found

theorem getElem?_position {g : Graph N} {value : N} (bound : g.position value < g.nodeCount) :
    g.nodes[g.position value]? = some value := by
  have found : g.vertices[g.position value].value = value :=
    of_decide_eq_true (List.findIdx_getElem (w := bound))
  rw [nodes, List.getElem?_map, List.getElem?_eq_getElem bound, Option.map_some, found]

theorem hasEdge_iff_positions {g : Graph N} {source target : N} :
    g.hasEdge source target = true ↔
      ∃ i k, g.nodes[i]? = some source ∧ g.nodes[k]? = some target ∧ k ∈ g.targetsAt i := by
  constructor
  · intro edge
    have given := edge
    simp only [hasEdge, List.any_eq_true, Bool.and_eq_true, decide_eq_true_eq,
      List.contains_iff_mem] at given
    obtain ⟨vertex, member, named, linked⟩ := given
    obtain ⟨i, at_i⟩ := List.getElem?_of_mem member
    have source_here : g.nodes[i]? = some source := by simp [nodes, at_i, named]
    have target_here := getElem?_position (g.in_range vertex member _ linked)
    exact ⟨i, _, source_here, target_here, (hasEdge_iff source_here target_here).mp edge⟩
  · intro given
    obtain ⟨i, k, source_here, target_here, linked⟩ := given
    exact (hasEdge_iff source_here target_here).mpr linked

@[simp] theorem hasEdge_withNode (g : Graph N) (value source target : N) :
    (g.withNode value).hasEdge source target = g.hasEdge source target := by
  rw [Bool.eq_iff_iff, hasEdge_iff_positions, hasEdge_iff_positions]
  simp only [targetsAt_withNode]
  constructor
  · intro given
    obtain ⟨i, k, source_here, target_here, linked⟩ := given
    obtain ⟨i_bound, k_bound⟩ := lt_of_mem_targetsAt linked
    rw [getElem?_nodes_withNode value i_bound] at source_here
    rw [getElem?_nodes_withNode value k_bound] at target_here
    exact ⟨i, k, source_here, target_here, linked⟩
  · intro given
    obtain ⟨i, k, source_here, target_here, linked⟩ := given
    obtain ⟨i_bound, k_bound⟩ := lt_of_mem_targetsAt linked
    rw [← getElem?_nodes_withNode value i_bound] at source_here
    rw [← getElem?_nodes_withNode value k_bound] at target_here
    exact ⟨i, k, source_here, target_here, linked⟩

theorem mem_of_hasEdge {g : Graph N} {source target : N} (edge : g.hasEdge source target = true) :
    source ∈ g.nodes ∧ target ∈ g.nodes := by
  obtain ⟨i, k, source_here, target_here, -⟩ := hasEdge_iff_positions.mp edge
  exact ⟨List.mem_of_getElem? source_here, List.mem_of_getElem? target_here⟩

@[simp] theorem hasEdge_withEdge {g : Graph N} {source target first second : N} :
    (g.withEdge source target).hasEdge first second = true ↔
      g.hasEdge first second = true ∨ (first, second) = (source, target) := by
  let h := (g.withNode source).withNode target
  have source_known : source ∈ h.nodes :=
    mem_nodes_withNode.mpr (Or.inl (mem_nodes_withNode.mpr (Or.inr rfl)))
  have target_known : target ∈ h.nodes := mem_nodes_withNode.mpr (Or.inr rfl)
  obtain ⟨s, source_here⟩ := List.getElem?_of_mem source_known
  obtain ⟨t, target_here⟩ := List.getElem?_of_mem target_known
  have before : g.hasEdge first second = h.hasEdge first second := by
    simp only [h, hasEdge_withNode]
  rw [withEdge_eq, before, hasEdge_iff_positions, hasEdge_iff_positions]
  change (∃ i k, (h.withEdge source target).nodes[i]? = some first ∧
    (h.withEdge source target).nodes[k]? = some second ∧
      k ∈ (h.withEdge source target).targetsAt i) ↔ _
  simp only [withEdge_nodes source_known target_known,
    mem_targetsAt_withEdge source_here target_here]
  constructor
  · intro given
    obtain ⟨i, k, first_here, second_here, old | added⟩ := given
    · exact Or.inl ⟨i, k, first_here, second_here, old⟩
    · cases added
      rw [source_here] at first_here
      rw [target_here] at second_here
      cases first_here
      cases second_here
      exact Or.inr rfl
  · intro given
    rcases given with ⟨i, k, first_here, second_here, old⟩ | same
    · exact ⟨i, k, first_here, second_here, Or.inl old⟩
    · cases same
      exact ⟨s, t, source_here, target_here, Or.inr rfl⟩

theorem targets_linked {g : Graph N} {source : N} {s target : Nat}
    (here : g.nodes[s]? = some source) (bound : target < g.vertices.length) :
    (g.linked source target bound).vertices.map Vertex.targets =
      (g.vertices.map Vertex.targets).modify s (insertAscending target) := by
  apply List.ext_getElem?
  intro i
  simp only [linked, List.getElem?_map, List.getElem?_modify]
  cases at_i : g.vertices[i]? with
  | none => simp
  | some vertex =>
    have named : vertex.value = source ↔ s = i := by
      constructor
      · intro same
        have there : g.nodes[i]? = some source := by simp [nodes, at_i, same]
        rw [← position_of_getElem? here, position_of_getElem? there]
      · intro same
        rw [same] at here
        simpa [nodes, at_i] using here
    by_cases same : s = i
    · simp [same, named.mpr same]
    · simp [same, named]

theorem edgeCount_linked {g : Graph N} {source : N} {s target : Nat}
    (here : g.nodes[s]? = some source) (bound : target < g.vertices.length) :
    (g.linked source target bound).edgeCount =
      if target ∈ g.targetsAt s then g.edgeCount else g.edgeCount + 1 := by
  obtain ⟨vertex, at_s, -⟩ : ∃ vertex, g.vertices[s]? = some vertex ∧ vertex.value = source := by
    simpa [nodes] using here
  have row : (g.vertices.map Vertex.targets)[s]? = some vertex.targets := by simp [at_s]
  rw [edgeCount_eq, targets_linked here, edgeCount_eq, targetsAt_eq at_s]
  split
  · rename_i member
    have ascending := g.ascending vertex (List.mem_of_getElem? at_s)
    congr 2
    apply List.ext_getElem?
    intro i
    rw [List.getElem?_modify]
    by_cases same : s = i
    · rw [← same, row]
      simp [insertAscending_of_mem ascending member]
    · simp [same]
  · rename_i absent
    exact length_flatten_modify row (length_insertAscending absent)

theorem edgeCount_withEdge (g : Graph N) (source target : N) :
    (g.withEdge source target).edgeCount =
      if g.hasEdge source target = true then g.edgeCount else g.edgeCount + 1 := by
  let h := (g.withNode source).withNode target
  have source_known : source ∈ h.nodes :=
    mem_nodes_withNode.mpr (Or.inl (mem_nodes_withNode.mpr (Or.inr rfl)))
  obtain ⟨s, source_here⟩ := List.getElem?_of_mem source_known
  have target_here := getElem?_position (position_withNode_lt (g.withNode source) target)
  have before : g.hasEdge source target = h.hasEdge source target := by
    simp only [h, hasEdge_withNode]
  have counted : h.edgeCount = g.edgeCount := by simp only [h, edgeCount_withNode]
  unfold withEdge
  rw [edgeCount_linked source_here, before, counted]
  simp only [hasEdge_iff source_here target_here]

end Graph
end EntityCatalog
