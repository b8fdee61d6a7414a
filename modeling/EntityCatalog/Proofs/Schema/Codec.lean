import EntityCatalog.Proofs.Decimal.Reading
import EntityCatalog.Proofs.Graph.Rebuild
import EntityCatalog.Proofs.Results
import EntityCatalog.Schema.Codec

/- Values of the domain that are written and come back as they were: texts, readable decimals,
   lists, and graphs of at most as many nodes as there are positions. What is written of a graph lists
   each edge once, whatever the walk meets on its way, and the graph that is read is the one that was
   written, so it is written in the same way again. -/
namespace EntityCatalog

section
variable {α N : Type}

namespace Document

theorem required_eq {d : Document} {field : String} {value : Value}
    (given : d.get? field = some value) : d.required field = .ok value := by
  rw [required, given]

theorem requiredInt32_eq {d : Document} {field : String} {number : Int32}
    (given : d.get? field = some (.int32 number)) : d.requiredInt32 field = .ok number := by
  rw [requiredInt32, required_eq given]
  rfl

theorem requiredString_eq {d : Document} {field text : String}
    (given : d.get? field = some (.string text)) : d.requiredString field = .ok text := by
  rw [requiredString, required_eq given]
  rfl

theorem requiredArray_eq {d : Document} {field : String} {items : List Value}
    (given : d.get? field = some (.array items)) : d.requiredArray field = .ok items := by
  rw [requiredArray, required_eq given]
  rfl

end Document

/-- The item is written, and reading what was written gives it back. -/
def Codec.Keeps (codec : Codec α) (item : α) : Prop :=
  ∃ value, codec.encode item = .ok value ∧ codec.decode value = .ok item

theorem decimalCodec_decode (field : String) {d : Decimal} (readable : d.Readable) :
    (decimalCodec field).decode (.string d.text) = .ok d := by
  have back := Decimal.trimmed_reads_back (Decimal.readable_iff_trimmed.mp readable)
  simp only [decimalCodec, Document.expect, Value.string?, Decimal.parse_text, back]

theorem mapM_keeps {codec : Codec α} {items : List α} (each : ∀ item ∈ items, codec.Keeps item) :
    ∃ values, items.mapM codec.encode = .ok values ∧ values.mapM codec.decode = .ok items := by
  induction items with
  | nil => exact ⟨[], rfl, rfl⟩
  | cons item rest ih =>
    obtain ⟨value, written, read⟩ := each item (by simp)
    obtain ⟨values, all_written, all_read⟩ := ih fun later member => each later (by simp [member])
    refine ⟨value :: values, ?_, ?_⟩
    · rw [List.mapM_cons, written, all_written]
      rfl
    · rw [List.mapM_cons, read, all_read]
      rfl

namespace Graph

theorem nodeAt_eq_ok {nodes : List N} {index : Int32} {found : N} :
    nodeAt nodes index = .ok found ↔
      ∃ position : Nat, index.toInt = position ∧ nodes[position]? = some found := by
  unfold nodeAt
  constructor
  · intro read
    split at read
    · cases read
    · rename_i nonnegative
      split at read
      · rename_i node here
        cases read
        exact ⟨index.toInt.toNat, by omega, here⟩
      · cases read
  · rintro ⟨position, same, here⟩
    rw [same, if_neg (by omega), Int.toNat_natCast, here]

theorem nodeAt_eq_error {nodes : List N} {index : Int32} {fault : SchemaFault} :
    nodeAt nodes index = .error fault ↔
      (index.toInt < 0 ∨ (nodes.length : Int) ≤ index.toInt) ∧
        fault = .indexOutOfBounds nodesField index.toInt nodes.length := by
  unfold nodeAt
  split
  · rename_i negative
    simp [negative, eq_comm]
  · rename_i nonnegative
    split
    · rename_i node here
      have inside := (List.getElem?_eq_some_iff.mp here).1
      have not_beyond : ¬ (nodes.length : Int) ≤ index.toInt := by omega
      simp [nonnegative, not_beyond]
    · rename_i missing
      have outside := List.getElem?_eq_none_iff.mp missing
      have beyond : (nodes.length : Int) ≤ index.toInt := by omega
      simp [beyond, eq_comm]

theorem nodeAt_of_getElem? {nodes : List N} {i : Nat} {node : N} (small : i ≤ maxPosition)
    (here : nodes[i]? = some node) : nodeAt nodes (Int32.ofNat i) = .ok node := by
  have number : (Int32.ofNat i).toInt = i := by
    apply Int32.toInt_ofNat_of_lt
    unfold maxPosition at small
    omega
  exact nodeAt_eq_ok.mpr ⟨i, number, here⟩

theorem readEdge_edgeValue {nodes : List N} {edge : Nat × Nat} {source target : N}
    (source_read : nodeAt nodes (Int32.ofNat edge.1) = .ok source)
    (target_read : nodeAt nodes (Int32.ofNat edge.2) = .ok target) :
    readEdge nodes (edgeValue edge) = .ok (source, target) := by
  let d : Document :=
    ⟨[(sourceField, .int32 (Int32.ofNat edge.1)), (targetField, .int32 (Int32.ofNat edge.2))]⟩
  have opened : Document.expect edgesField "document" Value.document? (edgeValue edge) = .ok d := rfl
  have source_given : d.requiredInt32 sourceField = .ok (Int32.ofNat edge.1) :=
    Document.requiredInt32_eq rfl
  have target_given : d.requiredInt32 targetField = .ok (Int32.ofNat edge.2) :=
    Document.requiredInt32_eq rfl
  simp only [readEdge, opened, source_given, source_read, target_given, target_read, ok_bind]
  rfl

theorem readEdge_of_mem {g : Graph N} (small : g.nodeCount ≤ maxPosition) {edge : Nat × Nat}
    (member : edge ∈ g.edgeIndices) :
    ∃ ends, readEdge g.nodes (edgeValue edge) = .ok ends ∧ g.nodesOf edge = some ends := by
  obtain ⟨source_bound, target_bound⟩ := lt_of_mem_edgeIndices member
  obtain ⟨source, source_here⟩ := node_of_lt source_bound
  obtain ⟨target, target_here⟩ := node_of_lt target_bound
  refine ⟨(source, target), ?_, ?_⟩
  · exact readEdge_edgeValue (nodeAt_of_getElem? (by omega) source_here)
      (nodeAt_of_getElem? (by omega) target_here)
  · simp [nodesOf, source_here, target_here]

variable [DecidableEq N]

theorem codec_encode {node : Codec N} {g : Graph N} {values : List Value}
    (small : g.nodeCount ≤ maxPosition) (written : g.nodes.mapM node.encode = .ok values) :
    (codec node).encode g = .ok (.document
      [(nodesField, .array values), (edgesField, .array (g.edgeIndices.map edgeValue))]) := by
  unfold codec
  simp only [written]
  rw [if_neg (Nat.not_lt.mpr small)]
  rfl

theorem codec_decode {node : Codec N} {g : Graph N} {values : List Value}
    (small : g.nodeCount ≤ maxPosition) (read : values.mapM node.decode = .ok g.nodes) :
    (codec node).decode (.document
      [(nodesField, .array values), (edgesField, .array (g.edgeIndices.map edgeValue))]) =
        .ok g := by
  have edges : (g.edgeIndices.map edgeValue).mapM (readEdge g.nodes) = .ok g.edges := by
    rw [List.mapM_map]
    exact mapM_eq_filterMap fun edge member => readEdge_of_mem small member
  let d : Document :=
    ⟨[(nodesField, .array values), (edgesField, .array (g.edgeIndices.map edgeValue))]⟩
  have nodes_given : d.requiredArray nodesField = .ok values := Document.requiredArray_eq rfl
  have edges_given : d.requiredArray edgesField = .ok (g.edgeIndices.map edgeValue) :=
    Document.requiredArray_eq rfl
  change (d.requiredArray nodesField >>= fun items => items.mapM node.decode >>= fun nodes =>
    d.requiredArray edgesField >>= fun pairs => pairs.mapM (readEdge nodes) >>= fun edges =>
      .ok (ofLists nodes edges)) = .ok g
  rw [nodes_given, ok_bind, read, ok_bind, edges_given, ok_bind, edges, ok_bind, ofLists_self]

theorem codec_keeps {node : Codec N} {g : Graph N} (small : g.nodeCount ≤ maxPosition)
    (each : ∀ value ∈ g.nodes, node.Keeps value) : (codec node).Keeps g := by
  obtain ⟨values, written, read⟩ := mapM_keeps each
  exact ⟨_, codec_encode small written, codec_decode small read⟩

end Graph

end

/-! ### Graphs of the greatest size -/

section
variable {N : Type}

theorem textCodec_keeps {α : Type} (field : String) {wrap : String → α} {unwrap : α → String}
    {item : α} (same : wrap (unwrap item) = item) : (textCodec field wrap unwrap).Keeps item := by
  refine ⟨.string (unwrap item), rfl, ?_⟩
  exact congrArg Except.ok same

namespace Graph
variable [DecidableEq N]

/-- For every graph: each one is made by adding its nodes and then its edges. -/
theorem graphs_read_back (node : Codec N) (g : Graph N) (small : g.nodeCount ≤ maxPosition)
    (each : ∀ value ∈ g.nodes, node.Keeps value) :
    ∃ stored written h,
      written = Value.document
        [(nodesField, .array stored), (edgesField, .array (g.edgeIndices.map edgeValue))] ∧
      g.edgeIndices.Nodup ∧ g.edgeIndices.length = g.edgeCount ∧
      (codec node).encode g = .ok written ∧ (codec node).decode written = .ok h ∧
      h.nodes = g.nodes ∧ (∀ source target, h.hasEdge source target = g.hasEdge source target) ∧
      h.edgeCount = g.edgeCount ∧ (codec node).encode h = .ok written := by
  obtain ⟨stored, nodes_written, nodes_read⟩ := mapM_keeps each
  have encoded := codec_encode small nodes_written
  have decoded := codec_decode small nodes_read
  exact ⟨stored, _, g, rfl, g.edgeIndices_nodup, g.edgeIndices_length, encoded, decoded, rfl,
    fun _ _ => rfl, rfl, encoded⟩

/-- Two nodes that lead to each other, one of them also to itself, so that no node is without
    incoming edges but the one without edges. -/
def loopedSample : Graph String :=
  (((empty.withEdge "a" "b").withEdge "b" "a").withEdge "b" "b").withNode "c"

theorem looped_sample_reads_back :
    loopedSample.nodeCount ≤ maxPosition ∧
      (∀ value ∈ loopedSample.nodes, (textCodec "node" id id).Keeps value) ∧
      ∃ stored written h,
        written = Value.document [(nodesField, .array stored),
          (edgesField, .array (loopedSample.edgeIndices.map edgeValue))] ∧
        loopedSample.edgeIndices.Nodup ∧
        loopedSample.edgeIndices.length = loopedSample.edgeCount ∧
        (codec (textCodec "node" id id)).encode loopedSample = .ok written ∧
        (codec (textCodec "node" id id)).decode written = .ok h ∧
        h.nodes = loopedSample.nodes ∧
        (∀ source target, h.hasEdge source target = loopedSample.hasEdge source target) ∧
        h.edgeCount = loopedSample.edgeCount ∧
        (codec (textCodec "node" id id)).encode h = .ok written := by
  have small : loopedSample.nodeCount ≤ maxPosition := by decide
  have each : ∀ value ∈ loopedSample.nodes, (textCodec "node" id id).Keeps value := by
    intro value _
    exact textCodec_keeps "node" rfl
  exact ⟨small, each, graphs_read_back _ _ small each⟩

end Graph

end

end EntityCatalog
