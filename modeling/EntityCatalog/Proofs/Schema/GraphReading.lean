import EntityCatalog.Proofs.Graph.History
import EntityCatalog.Proofs.Schema.Versions
import EntityCatalog.Schema.Codec
import Mathlib.Data.List.Forall2

/- Which values are read as a graph, and as which one. The edges name positions in the list of nodes
   as it is stored, so a node that is stored twice has two of them, and all of them are in the list
   before a node is looked up. Where a value is not read, the fault is the first that it has. -/
namespace EntityCatalog
open List (Forall₂)

variable {α β ε N : Type}

theorem mapM_eq_ok_iff {f : α → Except ε β} {items : List α} {made : List β} :
    items.mapM f = .ok made ↔ Forall₂ (fun item value => f item = .ok value) items made := by
  induction items generalizing made with
  | nil =>
    rw [List.mapM_nil, List.forall₂_nil_left_iff]
    exact ⟨fun same => (Except.ok.inj same).symm, fun same => by rw [same]; rfl⟩
  | cons item rest ih =>
    rw [List.mapM_cons, List.forall₂_cons_left_iff, bind_eq_ok]
    constructor
    · rintro ⟨value, first_made, later⟩
      obtain ⟨others, rest_made, joined⟩ := bind_eq_ok.mp later
      exact ⟨value, others, first_made, ih.mp rest_made, (Except.ok.inj joined).symm⟩
    · rintro ⟨value, others, first_made, rest_made, rfl⟩
      exact ⟨value, first_made, bind_eq_ok.mpr ⟨others, ih.mpr rest_made, rfl⟩⟩

theorem Value.document?_eq_some {value : Value} {d : Document} :
    value.document? = some d ↔ value = d.toValue := by
  constructor
  · intro seen
    cases value with
    | document fields =>
      cases seen
      rfl
    | null | bool _ | int32 _ | int64 _ | string _ | array _ => cases seen
  · intro same
    rw [same]
    rfl

theorem Document.requiredArray_eq_ok {d : Document} {field : String} {items : List Value} :
    d.requiredArray field = .ok items ↔ d.get? field = some (.array items) := by
  constructor
  · intro found
    obtain ⟨value, here, seen⟩ := bind_eq_ok.mp found
    cases value with
    | array _ =>
      cases seen
      exact get?_of_required here
    | null | bool _ | int32 _ | int64 _ | string _ | document _ => cases seen
  · exact requiredArray_eq

namespace Graph

def HoldsPosition (fields : Document) (field : String) (count position : Nat) : Prop :=
  ∃ number, fields.get? field = some (.int32 number) ∧ number.toInt = position ∧ position < count

inductive PositionFault (fields : Document) (field : String) (count : Nat) : SchemaFault → Prop where
  | unreadable {fault : SchemaFault} (wrong : FieldFault fields field "int32" Value.int32? fault) :
      PositionFault fields field count fault
  | outside {number : Int32} (here : fields.get? field = some (.int32 number))
      (beyond : number.toInt < 0 ∨ (count : Int) ≤ number.toInt) :
      PositionFault fields field count (.indexOutOfBounds nodesField number.toInt count)

def NamesEdge (count : Nat) (item : Value) (edge : Nat × Nat) : Prop :=
  ∃ fields : Document, item = fields.toValue ∧
    HoldsPosition fields sourceField count edge.1 ∧ HoldsPosition fields targetField count edge.2

/-- The item names no edge. Its target is not looked at before its source is known. -/
inductive EdgeFault (count : Nat) : Value → SchemaFault → Prop where
  | mistyped {item : Value} (other : item.document? = none) :
      EdgeFault count item (.mistyped edgesField "document" item.typeName)
  | source {fields : Document} {fault : SchemaFault}
      (wrong : PositionFault fields sourceField count fault) : EdgeFault count fields.toValue fault
  | target {fields : Document} {fault : SchemaFault} {position : Nat}
      (holds : HoldsPosition fields sourceField count position)
      (wrong : PositionFault fields targetField count fault) : EdgeFault count fields.toValue fault

def ListsNodes (node : Codec N) (d : Document) (nodes : List N) : Prop :=
  ∃ stored, d.get? nodesField = some (.array stored) ∧
    Forall₂ (fun item found => node.decode item = .ok found) stored nodes

/-- The value is a document that lists the nodes, and edges between positions of their list. -/
def Encodes (node : Codec N) (value : Value) (nodes : List N) (edges : List (Nat × Nat)) : Prop :=
  ∃ (d : Document) (items : List Value), value = d.toValue ∧ ListsNodes node d nodes ∧
    d.get? edgesField = some (.array items) ∧ Forall₂ (NamesEdge nodes.length) items edges

/-- The value is not a document that lists nodes and edges, and this is the first fault in it. -/
inductive Refused (node : Codec N) : Value → SchemaFault → Prop where
  | mistyped {value : Value} (other : value.document? = none) :
      Refused node value (.mistyped "graph" "document" value.typeName)
  | nodes {d : Document} {fault : SchemaFault}
      (wrong : FieldFault d nodesField "array" Value.array? fault) : Refused node d.toValue fault
  | node {d : Document} {fault : SchemaFault} {before after : List Value} {item : Value}
      (here : d.get? nodesField = some (.array (before ++ item :: after)))
      (good : ∀ earlier ∈ before, ∃ found, node.decode earlier = .ok found)
      (wrong : node.decode item = .error fault) : Refused node d.toValue fault
  | edges {d : Document} {fault : SchemaFault} {nodes : List N} (listed : ListsNodes node d nodes)
      (wrong : FieldFault d edgesField "array" Value.array? fault) : Refused node d.toValue fault
  | edge {d : Document} {fault : SchemaFault} {nodes : List N} {before after : List Value}
      {item : Value} (listed : ListsNodes node d nodes)
      (here : d.get? edgesField = some (.array (before ++ item :: after)))
      (good : ∀ earlier ∈ before, ∃ edge, NamesEdge nodes.length earlier edge)
      (wrong : EdgeFault nodes.length item fault) : Refused node d.toValue fault

def Ends (nodes : List N) (edge : Nat × Nat) (pair : N × N) : Prop :=
  nodes[edge.1]? = some pair.1 ∧ nodes[edge.2]? = some pair.2

section Positions
variable {nodes : List N} {fields : Document} {field : String}

def namedNode (nodes : List N) (fields : Document) (field : String) : Except SchemaFault N :=
  fields.requiredInt32 field >>= nodeAt nodes

theorem namedNode_eq_ok {found : N} :
    namedNode nodes fields field = .ok found ↔ ∃ position,
      HoldsPosition fields field nodes.length position ∧ nodes[position]? = some found := by
  rw [namedNode, bind_eq_ok]
  constructor
  · rintro ⟨number, read, looked_up⟩
    obtain ⟨position, same, here⟩ := nodeAt_eq_ok.mp looked_up
    have inside := (List.getElem?_eq_some_iff.mp here).1
    exact ⟨position, ⟨number, Document.get?_of_requiredInt32 read, same, inside⟩, here⟩
  · rintro ⟨position, ⟨number, held, same, -⟩, here⟩
    exact ⟨number, Document.requiredInt32_eq held, nodeAt_eq_ok.mpr ⟨position, same, here⟩⟩

theorem namedNode_eq_error {fault : SchemaFault} :
    namedNode nodes fields field = .error fault ↔
      PositionFault fields field nodes.length fault := by
  rw [namedNode, bind_eq_error]
  constructor
  · rintro (unread | ⟨number, read, looked_up⟩)
    · exact .unreadable (fieldFault_iff.mp unread)
    · obtain ⟨beyond, rfl⟩ := nodeAt_eq_error.mp looked_up
      exact .outside (Document.get?_of_requiredInt32 read) beyond
  · intro wrong
    cases wrong with
    | unreadable wrong => exact Or.inl (fieldFault_iff.mpr wrong)
    | outside here beyond =>
      exact Or.inr ⟨_, Document.requiredInt32_eq here, nodeAt_eq_error.mpr ⟨beyond, rfl⟩⟩

end Positions

section Edges
variable {nodes : List N} {item : Value}

theorem readEdge_mistyped (other : item.document? = none) :
    readEdge nodes item = .error (.mistyped edgesField "document" item.typeName) := by
  unfold readEdge Document.expect
  rw [other]
  rfl

theorem readEdge_document (nodes : List N) (fields : Document) :
    readEdge nodes fields.toValue = do
      let source ← namedNode nodes fields sourceField
      let target ← namedNode nodes fields targetField
      return (source, target) := by
  simp only [namedNode, bind_assoc]
  rfl

theorem readEdge_eq_ok {pair : N × N} :
    readEdge nodes item = .ok pair ↔
      ∃ edge, NamesEdge nodes.length item edge ∧ Ends nodes edge pair := by
  constructor
  · intro read
    cases seen : item.document? with
    | none =>
      rw [readEdge_mistyped seen] at read
      cases read
    | some fields =>
      rw [Value.document?_eq_some.mp seen, readEdge_document] at read
      obtain ⟨source, source_read, later⟩ := bind_eq_ok.mp read
      obtain ⟨target, target_read, joined⟩ := bind_eq_ok.mp later
      obtain ⟨first, first_held, first_here⟩ := namedNode_eq_ok.mp source_read
      obtain ⟨second, second_held, second_here⟩ := namedNode_eq_ok.mp target_read
      cases joined
      exact ⟨(first, second), ⟨fields, Value.document?_eq_some.mp seen, first_held, second_held⟩,
        first_here, second_here⟩
  · rintro ⟨edge, ⟨fields, rfl, source_held, target_held⟩, source_here, target_here⟩
    rw [readEdge_document, namedNode_eq_ok.mpr ⟨_, source_held, source_here⟩,
      namedNode_eq_ok.mpr ⟨_, target_held, target_here⟩]
    rfl

theorem readEdge_eq_error {fault : SchemaFault} :
    readEdge nodes item = .error fault ↔ EdgeFault nodes.length item fault := by
  constructor
  · intro refused
    cases seen : item.document? with
    | none =>
      rw [readEdge_mistyped seen] at refused
      cases refused
      exact .mistyped seen
    | some fields =>
      rw [Value.document?_eq_some.mp seen, readEdge_document] at refused
      rw [Value.document?_eq_some.mp seen]
      rcases bind_eq_error.mp refused with at_source | ⟨source, source_read, later⟩
      · exact .source (namedNode_eq_error.mp at_source)
      · obtain ⟨position, held, -⟩ := namedNode_eq_ok.mp source_read
        rcases bind_eq_error.mp later with at_target | ⟨target, -, joined⟩
        · exact .target held (namedNode_eq_error.mp at_target)
        · cases joined
  · intro wrong
    cases wrong with
    | mistyped other => exact readEdge_mistyped other
    | source wrong =>
      rw [readEdge_document, namedNode_eq_error.mpr wrong]
      rfl
    | target held wrong =>
      -- The source is read first, so it has to be known that it can be.
      obtain ⟨number, given, same, inside⟩ := held
      have source_read := namedNode_eq_ok.mpr
        ⟨_, ⟨number, given, same, inside⟩, List.getElem?_eq_getElem inside⟩
      rw [readEdge_document, bind_eq_error]
      exact Or.inr ⟨_, source_read, bind_eq_error.mpr (Or.inl (namedNode_eq_error.mpr wrong))⟩

theorem exists_ends {edge : Nat × Nat} (names : NamesEdge nodes.length item edge) :
    ∃ pair, Ends nodes edge pair := by
  -- Both positions of an edge are in the list, so both of its nodes are there.
  obtain ⟨fields, -, ⟨_, -, -, first_inside⟩, ⟨_, -, -, second_inside⟩⟩ := names
  exact ⟨(nodes[edge.1], nodes[edge.2]), List.getElem?_eq_getElem first_inside,
    List.getElem?_eq_getElem second_inside⟩

theorem readEdge_exists_iff :
    (∃ pair, readEdge nodes item = .ok pair) ↔ ∃ edge, NamesEdge nodes.length item edge := by
  constructor
  · rintro ⟨pair, read⟩
    obtain ⟨edge, names, -⟩ := readEdge_eq_ok.mp read
    exact ⟨edge, names⟩
  · rintro ⟨edge, names⟩
    obtain ⟨pair, ends⟩ := exists_ends names
    exact ⟨pair, readEdge_eq_ok.mpr ⟨edge, names, ends⟩⟩

theorem readEdges_of_names {items : List Value} {edges : List (Nat × Nat)}
    (named : Forall₂ (NamesEdge nodes.length) items edges) :
    ∃ pairs, items.mapM (readEdge nodes) = .ok pairs ∧ Forall₂ (Ends nodes) edges pairs := by
  induction named with
  | nil => exact ⟨[], rfl, .nil⟩
  | cons names _ ih =>
    obtain ⟨pair, ends⟩ := exists_ends names
    obtain ⟨pairs, rest_read, rest_ends⟩ := ih
    refine ⟨pair :: pairs, ?_, .cons ends rest_ends⟩
    rw [List.mapM_cons, readEdge_eq_ok.mpr ⟨_, names, ends⟩, rest_read]
    rfl

theorem names_of_readEdges {items : List Value} {pairs : List (N × N)}
    (read : items.mapM (readEdge nodes) = .ok pairs) :
    ∃ edges, Forall₂ (NamesEdge nodes.length) items edges := by
  have each := mapM_eq_ok_iff.mp read
  clear read
  induction each with
  | nil => exact ⟨[], .nil⟩
  | cons first_read _ ih =>
    obtain ⟨edge, names, -⟩ := readEdge_eq_ok.mp first_read
    obtain ⟨edges, rest_named⟩ := ih
    exact ⟨edge :: edges, .cons names rest_named⟩

theorem readEdges_eq_error {items : List Value} {fault : SchemaFault} :
    items.mapM (readEdge nodes) = .error fault ↔
      ∃ before item after, items = before ++ item :: after ∧
        (∀ earlier ∈ before, ∃ edge, NamesEdge nodes.length earlier edge) ∧
        EdgeFault nodes.length item fault := by
  simp only [mapM_eq_error, readEdge_exists_iff, readEdge_eq_error]

theorem mem_of_ends {edges : List (Nat × Nat)} {pairs : List (N × N)}
    (ends : Forall₂ (Ends nodes) edges pairs) {pair : N × N} :
    pair ∈ pairs ↔ ∃ edge ∈ edges, Ends nodes edge pair := by
  induction ends with
  | nil => simp
  | cons first_ends _ ih =>
    rename_i edge first rest pairs _
    simp only [List.mem_cons, ih, exists_eq_or_imp]
    refine or_congr_left ⟨?_, ?_⟩
    · intro same
      rw [same]
      exact first_ends
    · intro again
      have same_source := Option.some.inj (again.1.symm.trans first_ends.1)
      have same_target := Option.some.inj (again.2.symm.trans first_ends.2)
      exact Prod.ext same_source same_target

end Edges

section Lists
variable [DecidableEq N]

def listCalls (nodes : List N) (pairs : List (N × N)) : List (GraphChange N) :=
  nodes.map GraphChange.node ++ pairs.map fun pair => .edge pair.1 pair.2

theorem ofLists_eq_after (nodes : List N) (pairs : List (N × N)) :
    ofLists nodes pairs = after (listCalls nodes pairs) := by
  rw [after, listCalls, List.foldl_append, List.foldl_map, List.foldl_map]
  rfl

theorem mentioned_listCalls {nodes : List N} {pairs : List (N × N)}
    (inside : ∀ pair ∈ pairs, pair.1 ∈ nodes ∧ pair.2 ∈ nodes) :
    GraphChange.mentioned (listCalls nodes pairs) = nodes.eraseDups := by
  have named : (nodes.map GraphChange.node).flatMap GraphChange.mentions = nodes := by
    rw [List.flatMap_map]
    exact List.flatMap_singleton' nodes
  have nothing_new : ((pairs.map fun pair => GraphChange.edge pair.1 pair.2).flatMap
      GraphChange.mentions).removeAll nodes = [] := by
    rw [List.removeAll, List.filter_eq_nil_iff]
    intro value member
    rw [List.flatMap_map, List.mem_flatMap] at member
    obtain ⟨pair, listed, ends⟩ := member
    obtain ⟨source_inside, target_inside⟩ := inside pair listed
    rcases List.mem_pair.mp ends with rfl | rfl
    · simpa using source_inside
    · simpa using target_inside
  rw [GraphChange.mentioned, listCalls, List.flatMap_append, List.eraseDups_append, named,
    nothing_new]
  exact List.append_nil _

theorem mem_pairs_listCalls {nodes : List N} {pairs : List (N × N)} {pair : N × N} :
    pair ∈ GraphChange.pairs (listCalls nodes pairs) ↔ pair ∈ pairs := by
  have none_single : (nodes.map GraphChange.node).filterMap GraphChange.pair? = [] := by
    simp [List.filterMap_map, GraphChange.pair?, Function.comp_def]
  have each : (pairs.map fun pair => GraphChange.edge pair.1 pair.2).filterMap
      GraphChange.pair? = pairs := by
    simp [List.filterMap_map, GraphChange.pair?, Function.comp_def]
  rw [GraphChange.pairs, List.mem_eraseDups, listCalls, List.filterMap_append, none_single, each,
    List.nil_append]

theorem ofLists_nodes {nodes : List N} {pairs : List (N × N)}
    (inside : ∀ pair ∈ pairs, pair.1 ∈ nodes ∧ pair.2 ∈ nodes) :
    (ofLists nodes pairs).nodes = nodes.eraseDups := by
  rw [ofLists_eq_after, (after_shows _).nodes, mentioned_listCalls inside]

@[simp] theorem hasEdge_ofLists {nodes : List N} {pairs : List (N × N)} {source target : N} :
    (ofLists nodes pairs).hasEdge source target = true ↔ (source, target) ∈ pairs := by
  rw [ofLists_eq_after, (after_shows _).edges, mem_pairs_listCalls]

end Lists

theorem listsNodes_iff {node : Codec N} {d : Document} {nodes : List N} :
    ListsNodes node d nodes ↔
      ∃ stored, d.requiredArray nodesField = .ok stored ∧ stored.mapM node.decode = .ok nodes := by
  simp only [ListsNodes, Document.requiredArray_eq_ok, mapM_eq_ok_iff]

section Decoding
variable [DecidableEq N] {node : Codec N} {d : Document} {value : Value}

theorem decode_mistyped (node : Codec N) (other : value.document? = none) :
    (codec node).decode value = .error (.mistyped "graph" "document" value.typeName) := by
  simp only [codec, Document.expect, other]
  rfl

theorem decode_document (node : Codec N) (d : Document) :
    (codec node).decode d.toValue = do
      let stored ← d.requiredArray nodesField
      let nodes ← stored.mapM node.decode
      let items ← d.requiredArray edgesField
      let pairs ← items.mapM (readEdge nodes)
      return ofLists nodes pairs :=
  rfl

theorem decode_listed {nodes : List N} (listed : ListsNodes node d nodes) :
    (codec node).decode d.toValue = do
      let items ← d.requiredArray edgesField
      let pairs ← items.mapM (readEdge nodes)
      return ofLists nodes pairs := by
  obtain ⟨stored, found, decoded⟩ := listsNodes_iff.mp listed
  rw [decode_document, found]
  change (stored.mapM node.decode >>= _) = _
  rw [decoded]
  rfl

theorem decode_of_encodes {nodes : List N} {edges : List (Nat × Nat)}
    (encodes : Encodes node value nodes edges) :
    ∃ pairs, (codec node).decode value = .ok (ofLists nodes pairs) ∧
      Forall₂ (Ends nodes) edges pairs := by
  obtain ⟨d, items, rfl, listed, here, named⟩ := encodes
  obtain ⟨pairs, read, ends⟩ := readEdges_of_names named
  refine ⟨pairs, ?_, ends⟩
  rw [decode_listed listed, Document.requiredArray_eq here]
  change (items.mapM (readEdge nodes) >>= _) = _
  rw [read]
  rfl

theorem encodes_of_decode {g : Graph N} (decoded : (codec node).decode value = .ok g) :
    ∃ nodes edges, Encodes node value nodes edges := by
  cases seen : value.document? with
  | none =>
    rw [decode_mistyped node seen] at decoded
    cases decoded
  | some d =>
    rw [Value.document?_eq_some.mp seen, decode_document] at decoded
    obtain ⟨stored, found, unread⟩ := bind_eq_ok.mp decoded
    obtain ⟨nodes, read, edges_unread⟩ := bind_eq_ok.mp unread
    obtain ⟨items, here, pairs_unread⟩ := bind_eq_ok.mp edges_unread
    obtain ⟨pairs, pairs_read, -⟩ := bind_eq_ok.mp pairs_unread
    obtain ⟨edges, named⟩ := names_of_readEdges pairs_read
    exact ⟨nodes, edges, d, items, Value.document?_eq_some.mp seen,
      listsNodes_iff.mpr ⟨stored, found, read⟩, Document.requiredArray_eq_ok.mp here, named⟩

theorem refused_of_decode {fault : SchemaFault}
    (failed : (codec node).decode value = .error fault) : Refused node value fault := by
  cases seen : value.document? with
  | none =>
    rw [decode_mistyped node seen] at failed
    cases failed
    exact .mistyped seen
  | some d =>
    rw [Value.document?_eq_some.mp seen] at failed ⊢
    rw [decode_document] at failed
    rcases bind_eq_error.mp failed with no_nodes | ⟨stored, found, after_nodes⟩
    · exact .nodes (fieldFault_iff.mp no_nodes)
    rcases bind_eq_error.mp after_nodes with undecoded | ⟨nodes, decoded, after_decoding⟩
    · obtain ⟨before, item, after, rfl, good, wrong⟩ := mapM_eq_error.mp undecoded
      exact .node (Document.requiredArray_eq_ok.mp found) good wrong
    have listed := listsNodes_iff.mpr ⟨stored, found, decoded⟩
    rcases bind_eq_error.mp after_decoding with no_edges | ⟨items, here, after_edges⟩
    · exact .edges listed (fieldFault_iff.mp no_edges)
    rcases bind_eq_error.mp after_edges with unread | ⟨pairs, -, joined⟩
    · obtain ⟨before, item, after, rfl, good, wrong⟩ := readEdges_eq_error.mp unread
      exact .edge listed (Document.requiredArray_eq_ok.mp here) good wrong
    · cases joined

theorem decode_of_refused {fault : SchemaFault} (refused : Refused node value fault) :
    (codec node).decode value = .error fault := by
  cases refused with
  | mistyped other => exact decode_mistyped node other
  | nodes wrong =>
    rw [decode_document]
    exact bind_eq_error.mpr (Or.inl (fieldFault_iff.mpr wrong))
  | node here good wrong =>
    rename_i d before after item
    have undecoded : (before ++ item :: after).mapM node.decode = .error fault :=
      mapM_eq_error.mpr ⟨before, item, after, rfl, good, wrong⟩
    rw [decode_document, Document.requiredArray_eq here]
    change ((before ++ item :: after).mapM node.decode >>= _) = _
    exact bind_eq_error.mpr (Or.inl undecoded)
  | edges listed wrong =>
    rw [decode_listed listed]
    exact bind_eq_error.mpr (Or.inl (fieldFault_iff.mpr wrong))
  | edge listed here good wrong =>
    rename_i d nodes before after item
    have unread : (before ++ item :: after).mapM (readEdge nodes) = .error fault :=
      readEdges_eq_error.mpr ⟨before, item, after, rfl, good, wrong⟩
    rw [decode_listed listed, Document.requiredArray_eq here]
    change ((before ++ item :: after).mapM (readEdge nodes) >>= _) = _
    exact bind_eq_error.mpr (Or.inl unread)

theorem addNodes_indexed (g : Graph N) (nodes : List N) :
    g.indexed.addNodes nodes = (nodes.foldl withNode g).indexed := by
  unfold IndexedGraph.addNodes
  induction nodes generalizing g with
  | nil => rfl
  | cons value rest ih => rw [List.foldl_cons, List.foldl_cons, addNode_indexed, ih]

/-- Adding the edges while they are read comes to the same as adding them once all are read. -/
theorem putItems_indexed (nodes : List N) (g : Graph N) (items : List Value) :
    IndexedGraph.putItems nodes g.indexed items =
      (items.mapM (readEdge nodes)).map fun pairs =>
        (pairs.foldl (fun g edge => g.withEdge edge.1 edge.2) g).indexed := by
  induction items generalizing g with
  | nil => rfl
  | cons item rest ih =>
    rw [IndexedGraph.putItems, List.mapM_cons]
    cases readEdge nodes item with
    | error fault => rfl
    | ok pair =>
      change IndexedGraph.putItems nodes (g.indexed.putEdge pair.1 pair.2).1 rest = _
      rw [putEdge_indexed, ih]
      cases rest.mapM (readEdge nodes) <;> rfl

theorem read_document (node : Codec N) (d : Document) :
    IndexedGraph.read node d.toValue = (do
      let stored ← d.requiredArray nodesField
      let nodes ← stored.mapM node.decode
      let items ← d.requiredArray edgesField
      IndexedGraph.putItems nodes (empty.indexed.addNodes nodes) items) :=
  rfl

theorem read_indexed (node : Codec N) (value : Value) :
    IndexedGraph.read node value = ((codec node).decode value).map indexed := by
  cases seen : value.document? with
  | none =>
    rw [decode_mistyped node seen]
    simp only [IndexedGraph.read, Document.expect, seen]
    rfl
  | some d =>
    rw [Value.document?_eq_some.mp seen, decode_document, read_document]
    simp only [map_bind_eq]
    refine bind_congr fun stored => bind_congr fun nodes => bind_congr fun items => ?_
    rw [addNodes_indexed, putItems_indexed]
    cases items.mapM (readEdge nodes) <;> rfl

end Decoding
end Graph

namespace IndexedGraph
open EntityCatalog.Graph

variable [DecidableEq N] {node : Codec N} {value : Value}

theorem read_exists_iff :
    (∃ g, read node value = .ok g) ↔ ∃ nodes edges, Encodes node value nodes edges := by
  rw [read_indexed]
  constructor
  · rintro ⟨g, made⟩
    obtain ⟨plain, decoded, -⟩ := map_eq_ok.mp made
    exact encodes_of_decode decoded
  · rintro ⟨nodes, edges, encodes⟩
    obtain ⟨pairs, decoded, -⟩ := decode_of_encodes encodes
    exact ⟨_, map_eq_ok.mpr ⟨_, decoded, rfl⟩⟩

theorem read_of_encodes {nodes : List N} {edges : List (Nat × Nat)}
    (encodes : Encodes node value nodes edges) :
    ∃ g, read node value = .ok g ∧ g.Synced ∧ g.nodes = nodes.eraseDups ∧
      ∀ source target, g.hasEdge source target = true ↔
        ∃ edge ∈ edges, nodes[edge.1]? = some source ∧ nodes[edge.2]? = some target := by
  obtain ⟨pairs, decoded, ends⟩ := decode_of_encodes encodes
  have inside : ∀ pair ∈ pairs, pair.1 ∈ nodes ∧ pair.2 ∈ nodes := by
    intro pair listed
    obtain ⟨edge, -, source_here, target_here⟩ := (mem_of_ends ends).mp listed
    exact ⟨List.mem_of_getElem? source_here, List.mem_of_getElem? target_here⟩
  refine ⟨(ofLists nodes pairs).indexed, ?_, synced_of_graph _, ofLists_nodes inside, ?_⟩
  · rw [read_indexed, decoded]
    rfl
  · intro source target
    rw [hasEdge_indexed, hasEdge_ofLists]
    exact mem_of_ends ends

theorem read_eq_error {fault : SchemaFault} :
    read node value = .error fault ↔ Refused node value fault := by
  rw [read_indexed, map_eq_error]
  exact ⟨refused_of_decode, decode_of_refused⟩

theorem read_of_edgeFault {d : Document} {nodes : List N} {items : List Value} {item : Value}
    {fault : SchemaFault} (listed : ListsNodes node d nodes)
    (here : d.get? edgesField = some (.array items)) (member : item ∈ items)
    (wrong : EdgeFault nodes.length item fault) : ∃ first, read node d.toValue = .error first := by
  -- Whatever the items before it are, an item that names no edge makes reading fail.
  rw [read_indexed, decode_listed listed, Document.requiredArray_eq here]
  change ∃ first, (items.mapM (readEdge nodes) >>= _).map indexed = .error first
  cases all : items.mapM (readEdge nodes) with
  | error first => exact ⟨first, rfl⟩
  | ok pairs =>
    obtain ⟨pair, read⟩ := made_of_mapM all member
    rw [readEdge_eq_error.mpr wrong] at read
    cases read

/-- A value is read as a graph if and only if it is a document that lists nodes, and edges between
    positions of their list. Then the nodes are those listed, each once and in the order in which
    they are listed first, and the edges are the pairs of nodes that stand at the positions of some
    edge. Any other value has a first fault, and this is what is reported. So a position that is
    negative, too large or of another type is never passed over. -/
theorem documents_read_exactly (node : Codec N) (value : Value) :
    ((∃ g, read node value = .ok g) ↔ ∃ nodes edges, Encodes node value nodes edges) ∧
    (∀ nodes edges, Encodes node value nodes edges →
      ∃ g, read node value = .ok g ∧ g.Synced ∧ g.nodes = nodes.eraseDups ∧
        ∀ source target, g.hasEdge source target = true ↔
          ∃ edge ∈ edges, nodes[edge.1]? = some source ∧ nodes[edge.2]? = some target) ∧
    (∀ fault, read node value = .error fault ↔ Refused node value fault) ∧
    (∀ d nodes items item fault, value = d.toValue → ListsNodes node d nodes →
      d.get? edgesField = some (.array items) → item ∈ items → EdgeFault nodes.length item fault →
        ∃ first, read node value = .error first) ∧
    read node value = ((codec node).decode value).map indexed := by
  refine ⟨read_exists_iff, ?_, fun fault => read_eq_error, ?_, read_indexed node value⟩
  · intro nodes edges encodes
    exact read_of_encodes encodes
  · intro d nodes items item fault same listed here member wrong
    rw [same]
    exact read_of_edgeFault listed here member wrong

/-- The node at position 2 is the one at position 0, and the edge from it is listed twice. -/
example :
    read (textCodec "node" id id) (.document [
      (nodesField, .array [.string "a", .string "b", .string "a"]),
      (edgesField, .array [edgeValue (2, 1), edgeValue (0, 1), edgeValue (1, 2)])]) =
    .ok ⟨["a", "b"], [("a", 0), ("b", 1)], [[1], [0]], [[1], [0]], 2⟩ := by
  rfl

end IndexedGraph
end EntityCatalog
