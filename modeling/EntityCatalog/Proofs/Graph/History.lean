import EntityCatalog.Proofs.Graph.Indexed

/- What a graph holds after any sequence of calls. Its nodes are the values the calls named, in the
   order in which each was named first, and its edges are the pairs the calls put. The redundant
   form stays in step with this through every call, whether it adds two nodes, one, or none. -/
namespace EntityCatalog
variable {α β N : Type}

theorem eraseDups_concat [BEq α] [LawfulBEq α] (items : List α) (item : α) :
    (items ++ [item]).eraseDups =
      if item ∈ items then items.eraseDups else items.eraseDups ++ [item] := by
  rw [List.eraseDups_append]
  split
  · rename_i known
    simp [List.removeAll, known]
  · rename_i new
    simp [List.removeAll, new, List.eraseDups_cons]

theorem eraseDups_nodup [BEq α] [LawfulBEq α] (items : List α) : items.eraseDups.Nodup := by
  induction size : items.length using Nat.strongRecOn generalizing items with
  | ind n ih =>
    cases items with
    | nil => exact List.nodup_nil
    | cons first rest =>
      rw [List.eraseDups_cons]
      have shorter := List.length_filter_le (fun item => !item == first) rest
      refine List.nodup_cons.mpr ⟨?_, ih _ ?_ _ rfl⟩
      · simp [List.mem_eraseDups]
      · rw [← size, List.length_cons]
        omega

/-- What is kept of one list and what is chosen of another are as many if each kept item names one
    chosen item of its own. -/
theorem length_filter_matched {items : List α} {others : List β} {kept : α → Bool}
    {chosen : β → Bool} (name : α → β) (items_distinct : items.Nodup)
    (others_distinct : others.Nodup)
    (apart : ∀ first second, name first = name second → first = second)
    (matched : ∀ other, other ∈ others ∧ chosen other = true ↔
      ∃ item, (item ∈ items ∧ kept item = true) ∧ name item = other) :
    (items.filter kept).length = (others.filter chosen).length := by
  have rearranged : ((items.filter kept).map name).Perm (others.filter chosen) := by
    refine (List.perm_ext_iff_of_nodup ?_ (others_distinct.filter _)).mpr ?_
    · refine List.pairwise_map.mpr ((items_distinct.filter _).imp ?_)
      intro first second different same
      exact different (apart first second same)
    · intro other
      simp only [List.mem_map, List.mem_filter]
      exact (matched other).symm
  rw [← rearranged.length_eq, List.length_map]

namespace GraphChange

def mentions : GraphChange N → List N
  | .node value => [value]
  | .edge source target => [source, target]

def pair? : GraphChange N → Option (N × N)
  | .node _ => none
  | .edge source target => some (source, target)

variable [DecidableEq N]

def mentioned (changes : List (GraphChange N)) : List N := (changes.flatMap mentions).eraseDups

def pairs (changes : List (GraphChange N)) : List (N × N) := (changes.filterMap pair?).eraseDups

theorem mentioned_node (past : List (GraphChange N)) (value : N) :
    mentioned (past ++ [.node value]) =
      if value ∈ mentioned past then mentioned past else mentioned past ++ [value] := by
  simp only [mentioned, List.flatMap_append, List.mem_eraseDups]
  exact eraseDups_concat _ value

theorem mentioned_edge (past : List (GraphChange N)) (source target : N) :
    mentioned (past ++ [.edge source target]) =
      mentioned (past ++ [.node source] ++ [.node target]) := by
  simp [mentioned, mentions]

@[simp] theorem pairs_node (past : List (GraphChange N)) (value : N) :
    pairs (past ++ [.node value]) = pairs past := by
  simp only [pairs, List.filterMap_append]
  exact congrArg List.eraseDups (List.append_nil _)

theorem pairs_edge (past : List (GraphChange N)) (source target : N) :
    pairs (past ++ [.edge source target]) =
      if (source, target) ∈ pairs past then pairs past else pairs past ++ [(source, target)] := by
  simp only [pairs, List.filterMap_append, List.mem_eraseDups]
  exact eraseDups_concat _ (source, target)

@[simp] theorem mentioned_eq_nil {past : List (GraphChange N)} :
    mentioned past = [] ↔ past = [] := by
  constructor
  · intro nothing
    cases past with
    | nil => rfl
    | cons change rest => cases change <;> simp [mentioned, mentions, List.eraseDups_cons] at nothing
  · intro none
    rw [none]
    rfl

end GraphChange

open GraphChange

namespace Graph
variable [DecidableEq N]

def changed (g : Graph N) : GraphChange N → Graph N
  | .node value => g.withNode value
  | .edge source target => g.withEdge source target

structure Shows (g : Graph N) (past : List (GraphChange N)) : Prop where
  nodes : g.nodes = mentioned past
  edges : ∀ source target, g.hasEdge source target = true ↔ (source, target) ∈ pairs past
  edgeCount : g.edgeCount = (pairs past).length

theorem empty_shows : (empty : Graph N).Shows [] := by
  constructor
  · rfl
  · intro source target
    simp [hasEdge, empty, pairs]
  · rfl

theorem withNode_shows {g : Graph N} {past : List (GraphChange N)} (shows : g.Shows past)
    (value : N) : (g.withNode value).Shows (past ++ [.node value]) := by
  constructor
  · rw [nodes_withNode, mentioned_node, shows.nodes]
  · intro source target
    rw [hasEdge_withNode, pairs_node]
    exact shows.edges source target
  · rw [edgeCount_withNode, pairs_node]
    exact shows.edgeCount

theorem withEdge_shows {g : Graph N} {past : List (GraphChange N)} (shows : g.Shows past)
    (source target : N) : (g.withEdge source target).Shows (past ++ [.edge source target]) := by
  have named := withNode_shows (withNode_shows shows source) target
  have known : g.hasEdge source target = true ↔ (source, target) ∈ pairs past :=
    shows.edges source target
  constructor
  · rw [nodes_withEdge, mentioned_edge]
    exact named.nodes
  · intro first second
    rw [hasEdge_withEdge, shows.edges, pairs_edge]
    split
    · rename_i old
      constructor
      · intro given
        rcases given with earlier | same
        · exact earlier
        · rw [same]
          exact old
      · exact Or.inl
    · simp
  · rw [edgeCount_withEdge, pairs_edge, shows.edgeCount]
    simp only [known]
    split <;> simp

theorem changed_shows {g : Graph N} {past : List (GraphChange N)} (shows : g.Shows past)
    (change : GraphChange N) : (g.changed change).Shows (past ++ [change]) := by
  cases change with
  | node value => exact withNode_shows shows value
  | edge source target => exact withEdge_shows shows source target

theorem changes_show {g : Graph N} {past : List (GraphChange N)} (shows : g.Shows past)
    (changes : List (GraphChange N)) : (changes.foldl changed g).Shows (past ++ changes) := by
  induction changes generalizing g past with
  | nil => simpa using shows
  | cons change rest ih =>
    have later := ih (changed_shows shows change)
    rw [List.append_assoc] at later
    exact later

def after (changes : List (GraphChange N)) : Graph N := changes.foldl changed empty

theorem after_shows (changes : List (GraphChange N)) : (after changes).Shows changes :=
  changes_show empty_shows changes

theorem changed_indexed (g : Graph N) (change : GraphChange N) :
    (g.indexed.changed change).1 = (g.changed change).indexed := by
  cases change with
  | node value =>
    change (g.indexed.addNode value).1 = _
    rw [addNode_indexed]
    rfl
  | edge source target =>
    change (g.indexed.putEdge source target).1 = _
    rw [putEdge_indexed]
    rfl

theorem changes_indexed (g : Graph N) (changes : List (GraphChange N)) :
    changes.foldl (fun g change => (g.changed change).1) g.indexed =
      (changes.foldl changed g).indexed := by
  induction changes generalizing g with
  | nil => rfl
  | cons change rest ih => rw [List.foldl_cons, List.foldl_cons, changed_indexed, ih]

/-- Both forms of the graph go through the same calls side by side. -/
theorem indexed_after (changes : List (GraphChange N)) :
    IndexedGraph.after changes = (after changes).indexed :=
  changes_indexed empty changes

theorem Shows.outgoing {g : Graph N} {past : List (GraphChange N)} (shows : g.Shows past)
    (value : N) : (g.nodes.filter (g.hasEdge value)).length =
      ((pairs past).filter fun pair => pair.1 = value).length := by
  refine length_filter_matched (fun other => (value, other)) g.nodes_nodup (eraseDups_nodup _)
    (fun _ _ => congrArg Prod.snd) ?_
  intro pair
  rw [decide_eq_true_eq]
  constructor
  · intro given
    obtain ⟨put, rfl⟩ := given
    have edge := (shows.edges pair.1 pair.2).mpr put
    exact ⟨pair.2, ⟨(mem_of_hasEdge edge).2, edge⟩, rfl⟩
  · intro given
    obtain ⟨other, ⟨-, edge⟩, rfl⟩ := given
    exact ⟨(shows.edges value other).mp edge, rfl⟩

theorem Shows.incoming {g : Graph N} {past : List (GraphChange N)} (shows : g.Shows past)
    (value : N) : (g.nodes.filter fun other => g.hasEdge other value).length =
      ((pairs past).filter fun pair => pair.2 = value).length := by
  refine length_filter_matched (fun other => (other, value)) g.nodes_nodup (eraseDups_nodup _)
    (fun _ _ => congrArg Prod.fst) ?_
  intro pair
  rw [decide_eq_true_eq]
  constructor
  · intro given
    obtain ⟨put, rfl⟩ := given
    have edge := (shows.edges pair.1 pair.2).mpr put
    exact ⟨pair.1, ⟨(mem_of_hasEdge edge).1, edge⟩, rfl⟩
  · intro given
    obtain ⟨other, ⟨-, edge⟩, rfl⟩ := given
    exact ⟨(shows.edges other value).mp edge, rfl⟩

end Graph

namespace IndexedGraph
variable [DecidableEq N]

/-- The parts of the redundant form agree: the index gives each node its position and nothing else,
    each position has a row of targets and one of sources, the two say the same, and the count is
    the number of all targets. -/
structure Synced (g : IndexedGraph N) : Prop where
  distinct : g.nodes.Nodup
  index : ∀ value i, g.position? value = some i ↔ g.nodes[i]? = some value
  rows : g.targets.length = g.nodeCount ∧ g.sources.length = g.nodeCount
  ascending : ∀ i, (row g.targets i).Pairwise (· < ·) ∧ (row g.sources i).Pairwise (· < ·)
  mirrored : ∀ source target, target ∈ row g.targets source ↔ source ∈ row g.sources target
  in_range : ∀ source target, target ∈ row g.targets source →
    source < g.nodeCount ∧ target < g.nodeCount
  counted : g.edgeCount = g.targets.flatten.length

structure Answers (g : IndexedGraph N) (past : List (GraphChange N)) : Prop where
  nodes : g.nodes = mentioned past
  nodeCount : g.nodeCount = (mentioned past).length
  edgeCount : g.edgeCount = (pairs past).length
  isEmpty : g.isEmpty = true ↔ past = []
  contains : ∀ value, g.contains value = true ↔ value ∈ mentioned past
  hasEdge : ∀ source target, g.hasEdge source target = true ↔ (source, target) ∈ pairs past
  successors : ∀ value, g.successors value =
    (mentioned past).filter fun other => (value, other) ∈ pairs past
  predecessors : ∀ value, g.predecessors value =
    (mentioned past).filter fun other => (other, value) ∈ pairs past
  outDegree : ∀ value,
    g.outDegree value = ((pairs past).filter fun pair => pair.1 = value).length
  inDegree : ∀ value,
    g.inDegree value = ((pairs past).filter fun pair => pair.2 = value).length

theorem synced_of_graph (g : Graph N) : g.indexed.Synced := by
  constructor
  · exact g.nodes_nodup
  · intro value i
    exact Graph.position?_indexed
  · simp [Graph.indexed, nodeCount, Graph.nodes, Graph.nodeCount]
  · intro i
    rw [Graph.row_targets, Graph.row_sources]
    exact ⟨g.targetsAt_ascending i, g.sourcesAt_ascending i⟩
  · intro source target
    rw [Graph.row_targets, Graph.row_sources]
    exact Graph.mem_sourcesAt.symm
  · intro source target member
    rw [Graph.row_targets] at member
    change source < g.nodes.length ∧ target < g.nodes.length
    rw [g.nodes_length]
    exact Graph.lt_of_mem_targetsAt member
  · exact g.edgeCount_eq

theorem answers_of_shows {g : Graph N} {past : List (GraphChange N)} (shows : g.Shows past) :
    g.indexed.Answers past := by
  have edge (source target : N) :
      g.hasEdge source target = decide ((source, target) ∈ pairs past) := by
    rw [Bool.eq_iff_iff, decide_eq_true_eq]
    exact shows.edges source target
  constructor
  · exact shows.nodes
  · exact congrArg List.length shows.nodes
  · exact shows.edgeCount
  · rw [isEmpty, List.isEmpty_iff, ← mentioned_eq_nil, ← shows.nodes]
    rfl
  · intro value
    rw [g.contains_indexed, Graph.contains_iff, shows.nodes]
  · intro source target
    rw [g.hasEdge_indexed]
    exact shows.edges source target
  · intro value
    rw [g.successors_indexed, shows.nodes]
    exact List.filter_congr fun other _ => edge value other
  · intro value
    rw [g.predecessors_indexed, shows.nodes]
    exact List.filter_congr fun other _ => edge other value
  · intro value
    rw [g.outDegree_indexed]
    exact shows.outgoing value
  · intro value
    rw [g.inDegree_indexed]
    exact shows.incoming value

theorem after_concat (past : List (GraphChange N)) (change : GraphChange N) :
    after (past ++ [change]) = ((Graph.after past).changed change).indexed := by
  rw [Graph.indexed_after, Graph.after, List.foldl_append]
  rfl

theorem addNode_after (past : List (GraphChange N)) (value : N) :
    (after past).addNode value =
      if value ∈ mentioned past then (after past, false)
      else (after (past ++ [.node value]), true) := by
  rw [Graph.indexed_after past, Graph.addNode_indexed, after_concat,
    ← (Graph.after_shows past).nodes]
  split
  · rename_i known
    rw [Graph.withNode_of_mem known, Graph.contains_iff.mpr known]
    rfl
  · rename_i new
    rw [Bool.eq_false_iff.mpr fun known => new (Graph.contains_iff.mp known)]
    rfl

theorem putEdge_after (past : List (GraphChange N)) (source target : N) :
    (after past).putEdge source target =
      if (source, target) ∈ pairs past then (after past, false)
      else (after (past ++ [.edge source target]), true) := by
  have known := (Graph.after_shows past).edges source target
  rw [Graph.indexed_after past, Graph.putEdge_indexed, after_concat]
  split
  · rename_i put
    rw [Graph.withEdge_of_hasEdge (known.mpr put), known.mpr put]
    rfl
  · rename_i new
    rw [Bool.eq_false_iff.mpr fun edge => new (known.mp edge)]
    rfl

/-- After any calls the redundant form is in step, and it answers from what was named and put. One
    more call says whether it adds what it is told to add; where it does not, nothing changes. -/
theorem calls_keep_form (past : List (GraphChange N)) :
    (after past).Synced ∧ (after past).Answers past ∧
      (∀ value, (after past).addNode value =
        if value ∈ mentioned past then (after past, false)
        else (after (past ++ [.node value]), true)) ∧
      ∀ source target, (after past).putEdge source target =
        if (source, target) ∈ pairs past then (after past, false)
        else (after (past ++ [.edge source target]), true) := by
  have synced : (after past).Synced := by
    rw [Graph.indexed_after]
    exact synced_of_graph _
  have answers : (after past).Answers past := by
    rw [Graph.indexed_after]
    exact answers_of_shows (Graph.after_shows past)
  exact ⟨synced, answers, addNode_after past, putEdge_after past⟩

/-- Two nodes at once, one that is there, a loop, one new node, and an edge that is there. -/
example :
    after [.edge "a" "b", .node "a", .edge "b" "b", .edge "b" "c", .edge "a" "b"] =
      ⟨["a", "b", "c"], [("a", 0), ("b", 1), ("c", 2)], [[1], [1, 2], []], [[], [0, 1], [1]], 3⟩ :=
  by decide

end IndexedGraph
end EntityCatalog
