import EntityCatalog.Proofs.Fields
import EntityCatalog.Proofs.Results
import EntityCatalog.Schema.Entities

/- Whatever is written for an entity has each name once, in every document that it nests. -/
namespace EntityCatalog
open Document (empty_distinctNames set_distinctNames)

variable {α ι N : Type}

def Codec.DistinctNames (codec : Codec α) : Prop :=
  ∀ item value, codec.encode item = .ok value → value.DistinctNames

def KeepsDistinct (write : α → Document → Except GraphTooLarge Document) : Prop :=
  ∀ item d written, d.DistinctNames → write item d = .ok written → written.DistinctNames

theorem string_distinctNames (text : String) : (Value.string text).DistinctNames := by
  simp [Value.DistinctNames]

theorem textCodec_distinctNames (field : String) (wrap : String → α) (unwrap : α → String) :
    (textCodec field wrap unwrap).DistinctNames := by
  intro item value written
  cases written
  exact string_distinctNames _

theorem mapM_distinctNames {codec : Codec α} (distinct : codec.DistinctNames) {items : List α}
    {values : List Value} (written : items.mapM codec.encode = .ok values) :
    (Value.array values).DistinctNames := by
  apply itemsDistinctNames_iff.mpr
  induction items generalizing values with
  | nil =>
    cases written
    simp
  | cons item rest ih =>
    rw [List.mapM_cons] at written
    obtain ⟨value, first, written⟩ := bind_eq_ok.mp written
    obtain ⟨more, others, written⟩ := bind_eq_ok.mp written
    cases written
    intro found member
    rcases List.mem_cons.mp member with here | later
    · rw [here]
      exact distinct item value first
    · exact ih others found later

theorem Envelope.codec_distinctNames {envelope : Envelope α}
    (keeps : KeepsDistinct envelope.writeFields) : envelope.codec.DistinctNames := by
  intro item value written
  obtain ⟨d, fields, rfl⟩ := map_eq_ok.mp written
  refine keeps item _ d (set_distinctNames empty_distinctNames ?_) fields
  simp [Value.DistinctNames]

theorem IdentifiedEnvelope.encodeDocument_distinctNames {envelope : IdentifiedEnvelope α ι}
    (ids : envelope.idCodec.DistinctNames) (keeps : KeepsDistinct envelope.writeFields) {item : α}
    {writtenAt : Int} {d : Document} (written : envelope.encodeDocument item writtenAt = .ok d) :
    d.DistinctNames := by
  obtain ⟨value, id, written⟩ := bind_eq_ok.mp written
  refine keeps item _ d (set_distinctNames (set_distinctNames (set_distinctNames
    empty_distinctNames (ids _ _ id)) ?_) (string_distinctNames _)) written
  simp [Value.DistinctNames]

theorem Definition.write_keepsDistinct : KeepsDistinct Definition.write := by
  intro definition d written distinct write
  cases write
  exact set_distinctNames (set_distinctNames distinct (string_distinctNames _))
    (string_distinctNames _)

theorem Element.write_keepsDistinct : KeepsDistinct Element.write := by
  intro element d written distinct write
  obtain ⟨values, definitions, write⟩ := bind_eq_ok.mp write
  cases write
  exact set_distinctNames (set_distinctNames distinct (string_distinctNames _))
    (mapM_distinctNames (Envelope.codec_distinctNames Definition.write_keepsDistinct) definitions)

namespace Graph

theorem edgeValue_distinctNames (edge : Nat × Nat) : (edgeValue edge).DistinctNames := by
  simp [edgeValue, Value.DistinctNames, FieldsDistinctNames, sourceField, targetField]

theorem codec_distinctNames [DecidableEq N] {node : Codec N} (distinct : node.DistinctNames) :
    (codec node).DistinctNames := by
  intro g value written
  unfold codec at written
  simp only at written
  split at written
  · cases written
  · obtain ⟨values, nodes, written⟩ := bind_eq_ok.mp written
    cases written
    have each : (Value.array (g.edgeIndices.map edgeValue)).DistinctNames := by
      apply itemsDistinctNames_iff.mpr
      intro item member
      obtain ⟨edge, -, rfl⟩ := List.mem_map.mp member
      exact edgeValue_distinctNames edge
    simp only [Value.DistinctNames, FieldsDistinctNames, and_true]
    exact ⟨by simp [nodesField, edgesField], mapM_distinctNames distinct nodes, each⟩

end Graph

theorem Structure.write_keepsDistinct : KeepsDistinct Structure.write := by
  intro s d written distinct write
  obtain ⟨value, elements, write⟩ := bind_eq_ok.mp write
  cases write
  exact set_distinctNames distinct (Graph.codec_distinctNames
    (Envelope.codec_distinctNames Element.write_keepsDistinct) _ _ elements)

theorem Computation.write_keepsDistinct : KeepsDistinct Computation.write := by
  intro c d written distinct write
  have strings : (((((d.set structureIdField (.string c.structureId.text)).set elementNameField
      (.string c.elementName.text)).set expressionField (.string c.formula.text)).set statusField
      (.string c.status.text))).DistinctNames :=
    set_distinctNames (set_distinctNames (set_distinctNames (set_distinctNames distinct
      (string_distinctNames _)) (string_distinctNames _)) (string_distinctNames _))
      (string_distinctNames _)
  unfold Computation.write at write
  cases result : c.result with
  | none =>
    rw [result] at write
    cases write
    exact set_distinctNames strings (by simp [Value.DistinctNames])
  | some value =>
    rw [result] at write
    cases write
    exact set_distinctNames strings (string_distinctNames _)

theorem Structure.encodeDocument_distinctNames {s : Structure} {writtenAt : Int} {d : Document}
    (written : Structure.envelope.encodeDocument s writtenAt = .ok d) : d.DistinctNames :=
  IdentifiedEnvelope.encodeDocument_distinctNames (textCodec_distinctNames _ _ _)
    Structure.write_keepsDistinct written

theorem Computation.encodeDocument_distinctNames {c : Computation} {writtenAt : Int} {d : Document}
    (written : Computation.envelope.encodeDocument c writtenAt = .ok d) : d.DistinctNames :=
  IdentifiedEnvelope.encodeDocument_distinctNames (textCodec_distinctNames _ _ _)
    Computation.write_keepsDistinct written

end EntityCatalog
