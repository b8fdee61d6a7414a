import EntityCatalog.Graph

/- What a graph holds, seen from positions: the list of its nodes, and at each position the set of
   targets. These two determine the graph. Adding an edge between known nodes leaves the nodes as
   they are and adds one target at one position. -/
namespace EntityCatalog
variable {N : Type}

theorem ascending_ext {left right : List Nat} (left_ascending : left.Pairwise (· < ·))
    (right_ascending : right.Pairwise (· < ·)) (same : ∀ n, n ∈ left ↔ n ∈ right) :
    left = right := by
  induction left generalizing right with
  | nil =>
    cases right with
    | nil => rfl
    | cons first rest => simpa using (same first).mpr (by simp)
  | cons first rest ih =>
    cases right with
    | nil => simpa using (same first).mp (by simp)
    | cons other others =>
      obtain ⟨before, tail⟩ := List.pairwise_cons.mp left_ascending
      obtain ⟨other_before, other_tail⟩ := List.pairwise_cons.mp right_ascending
      have first_member := (same first).mp (by simp)
      have other_member := (same other).mpr (by simp)
      have heads : first = other := by
        rcases List.mem_cons.mp first_member with equal | later
        · exact equal
        · rcases List.mem_cons.mp other_member with equal | after
          · exact equal.symm
          · have one := other_before first later
            have two := before other after
            omega
      subst heads
      refine congrArg (first :: ·) (ih tail other_tail fun n => ?_)
      have here := same n
      simp only [List.mem_cons] at here
      constructor
      · intro member
        have above := before n member
        exact (here.mp (Or.inr member)).resolve_left (by omega)
      · intro member
        have above := other_before n member
        exact (here.mpr (Or.inr member)).resolve_left (by omega)

namespace Graph

def targetsAt (g : Graph N) (source : Nat) : List Nat :=
  g.vertices[source]?.elim [] Vertex.targets

theorem targetsAt_eq {g : Graph N} {i : Nat} {vertex : Vertex N}
    (here : g.vertices[i]? = some vertex) : g.targetsAt i = vertex.targets := by
  rw [targetsAt, here]
  rfl

theorem targetsAt_ascending (g : Graph N) (i : Nat) : (g.targetsAt i).Pairwise (· < ·) := by
  unfold targetsAt
  cases here : g.vertices[i]? with
  | none => exact List.Pairwise.nil
  | some vertex => exact g.ascending vertex (List.mem_of_getElem? here)

theorem lt_of_mem_targetsAt {g : Graph N} {i target : Nat} (member : target ∈ g.targetsAt i) :
    i < g.nodeCount ∧ target < g.nodeCount := by
  unfold targetsAt at member
  cases here : g.vertices[i]? with
  | none => simp [here] at member
  | some vertex =>
    rw [here] at member
    obtain ⟨bound, -⟩ := List.getElem?_eq_some_iff.mp here
    exact ⟨bound, g.in_range vertex (List.mem_of_getElem? here) target member⟩

theorem eq_of_vertices {g h : Graph N} (same : g.vertices = h.vertices) : g = h := by
  cases g
  cases h
  cases same
  rfl

theorem eq_of_targets {g h : Graph N} (nodes : g.nodes = h.nodes)
    (targets : ∀ i target, target ∈ g.targetsAt i ↔ target ∈ h.targetsAt i) : g = h := by
  refine eq_of_vertices (List.ext_getElem? fun i => ?_)
  have values := congrArg (·[i]?) nodes
  simp only [Graph.nodes, List.getElem?_map] at values
  have sets := ascending_ext (g.targetsAt_ascending i) (h.targetsAt_ascending i) (targets i)
  cases here : g.vertices[i]? with
  | none =>
    cases there : h.vertices[i]? with
    | none => rfl
    | some vertex => simp [here, there] at values
  | some vertex =>
    cases there : h.vertices[i]? with
    | none => simp [here, there] at values
    | some other =>
      rw [targetsAt_eq here, targetsAt_eq there] at sets
      rw [here, there] at values
      cases vertex
      cases other
      cases values
      cases sets
      rfl

theorem nodes_nodup (g : Graph N) : g.nodes.Nodup := g.distinct

@[simp] theorem nodes_length (g : Graph N) : g.nodes.length = g.nodeCount := List.length_map _

theorem node_of_lt {g : Graph N} {i : Nat} (bound : i < g.nodeCount) :
    ∃ value, g.nodes[i]? = some value :=
  ⟨_, List.getElem?_eq_getElem (by rw [nodes_length]; exact bound)⟩

variable [DecidableEq N]

@[simp] theorem contains_iff {g : Graph N} {value : N} :
    g.contains value = true ↔ value ∈ g.nodes := by
  simp [contains, nodes]

theorem position_of_getElem? {g : Graph N} {i : Nat} {value : N} (here : g.nodes[i]? = some value) :
    g.position value = i := by
  obtain ⟨bound, at_i⟩ := List.getElem?_eq_some_iff.mp here
  have short : i < g.vertices.length := by simpa [nodes] using bound
  refine (List.findIdx_eq short).mpr ⟨?_, fun j before => ?_⟩
  · simpa [nodes] using at_i
  · have apart := List.pairwise_iff_getElem.mp g.nodes_nodup j i (by omega) bound before
    simpa [nodes, ← at_i] using apart

theorem withNode_of_mem {g : Graph N} {value : N} (known : value ∈ g.nodes) :
    g.withNode value = g := by
  unfold withNode
  rw [dif_neg]
  simp [contains_iff.mpr known]

theorem withNode_new {g : Graph N} {value : N} (absent : value ∉ g.nodes) :
    (g.withNode value).vertices = g.vertices ++ [⟨value, []⟩] := by
  have unknown : g.contains value = false :=
    Bool.eq_false_iff.mpr fun known => absent (contains_iff.mp known)
  unfold withNode
  rw [dif_pos unknown]

@[simp] theorem linked_nodes (g : Graph N) (source : N) {target : Nat}
    (bound : target < g.vertices.length) : (g.linked source target bound).nodes = g.nodes := by
  simp only [nodes, linked, List.map_map]
  apply List.map_congr_left
  intro vertex _
  simp only [Function.comp]
  split <;> rfl

@[simp] theorem mem_targetsAt_linked {g : Graph N} {source : N} {target : Nat}
    (bound : target < g.vertices.length) {i k : Nat} :
    k ∈ (g.linked source target bound).targetsAt i ↔
      k ∈ g.targetsAt i ∨ g.nodes[i]? = some source ∧ k = target := by
  simp only [targetsAt, linked, nodes, List.getElem?_map]
  cases g.vertices[i]? with
  | none => simp
  | some vertex =>
    simp only [Option.map_some, Option.elim_some, Option.some.injEq]
    split
    · rename_i same
      simp [same, or_comm]
    · rename_i other
      simp [other]

theorem withEdge_nodes {g : Graph N} {source target : N} (source_known : source ∈ g.nodes)
    (target_known : target ∈ g.nodes) : (g.withEdge source target).nodes = g.nodes := by
  unfold withEdge
  rw [linked_nodes, withNode_of_mem source_known, withNode_of_mem target_known]

theorem mem_targetsAt_withEdge {g : Graph N} {source target : N} {s t : Nat}
    (source_here : g.nodes[s]? = some source) (target_here : g.nodes[t]? = some target)
    {i k : Nat} :
    k ∈ (g.withEdge source target).targetsAt i ↔ k ∈ g.targetsAt i ∨ (i, k) = (s, t) := by
  have position : ((g.withNode source).withNode target).position target = t := by
    rw [withNode_of_mem (List.mem_of_getElem? source_here),
      withNode_of_mem (List.mem_of_getElem? target_here), position_of_getElem? target_here]
  unfold withEdge
  rw [mem_targetsAt_linked, position, withNode_of_mem (List.mem_of_getElem? source_here),
    withNode_of_mem (List.mem_of_getElem? target_here), Prod.mk.injEq]
  refine or_congr_right (and_congr_left fun _ => ⟨fun found => ?_, fun same => ?_⟩)
  · rw [← position_of_getElem? found, ← position_of_getElem? source_here]
  · rw [same]
    exact source_here

theorem targets_eq {g : Graph N} {i : Nat} {value : N} (here : g.nodes[i]? = some value) :
    g.targets value = g.targetsAt i := by
  obtain ⟨vertex, at_i, rfl⟩ : ∃ vertex, g.vertices[i]? = some vertex ∧ vertex.value = value := by
    simpa [nodes] using here
  have position := position_of_getElem? here
  have found : g.vertices.find? (fun other => other.value = vertex.value) = some vertex := by
    rw [List.find?_eq_getElem?_findIdx]
    exact (congrArg (g.vertices[·]?) position).trans at_i
  rw [targets, found, targetsAt_eq at_i]
  rfl

theorem mem_successors {g : Graph N} {i : Nat} {value target : N}
    (here : g.nodes[i]? = some value) :
    target ∈ g.successors value ↔ ∃ k ∈ g.targetsAt i, g.nodes[k]? = some target := by
  rw [successors, targets_eq here, List.mem_filterMap]

theorem hasEdge_iff {g : Graph N} {i k : Nat} {source target : N}
    (source_here : g.nodes[i]? = some source) (target_here : g.nodes[k]? = some target) :
    g.hasEdge source target = true ↔ k ∈ g.targetsAt i := by
  obtain ⟨vertex, at_i, named⟩ :
      ∃ vertex, g.vertices[i]? = some vertex ∧ vertex.value = source := by
    simpa [nodes] using source_here
  rw [targetsAt_eq at_i]
  unfold hasEdge
  rw [position_of_getElem? target_here]
  simp only [List.any_eq_true, Bool.and_eq_true, decide_eq_true_eq, List.contains_iff_mem]
  constructor
  · rintro ⟨other, member, same, linked⟩
    obtain ⟨j, at_j⟩ := List.getElem?_of_mem member
    have other_here : g.nodes[j]? = some source := by
      simp [nodes, at_j, same]
    have places : i = j :=
      (position_of_getElem? source_here).symm.trans (position_of_getElem? other_here)
    rw [← places, at_i] at at_j
    cases at_j
    exact linked
  · intro linked
    exact ⟨vertex, List.mem_of_getElem? at_i, named, linked⟩

@[simp] theorem same_self (g : Graph N) : g.same g = true := by
  simp only [same, Bool.and_eq_true, decide_eq_true_eq, List.all_eq_true, true_and]
  constructor
  · exact fun value member => contains_iff.mpr member
  · intro value member target next
    obtain ⟨i, here⟩ := List.getElem?_of_mem member
    obtain ⟨k, linked, there⟩ := (mem_successors here).mp next
    exact (hasEdge_iff here there).mpr linked

end Graph
end EntityCatalog
