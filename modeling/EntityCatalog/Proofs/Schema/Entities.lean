import EntityCatalog.Proofs.Schema.Envelope
import EntityCatalog.Schema.Entities

/- Entities as documents and back. Every kind of entity comes back whole if its decimals are
   numbers that some text is read as and its graph has no more nodes than there are positions. -/
namespace EntityCatalog

theorem Document.decodeField_eq {α : Type} {d : Document} {field : String} {codec : Codec α}
    {value : Value} {item : α} (given : d.get? field = some value)
    (read : codec.decode value = .ok item) : d.decodeField field codec = .ok item := by
  unfold decodeField
  rw [required_eq given]
  exact read

theorem Definition.envelope_keeps {definition : Definition} (readable : definition.value.Readable) :
    Definition.envelope.Keeps definition := by
  let d := ((Document.empty.set versionField (.int32 1)).set nameField
    (.string definition.name.text)).set valueField (.string definition.value.text)
  have version : d.get? versionField = some (.int32 1) := by
    simp [d, versionField, nameField, valueField]
  have name : d.get? nameField = some (.string definition.name.text) := by
    simp [d, nameField, valueField]
  have value : d.get? valueField = some (.string definition.value.text) :=
    Document.get?_set_same _ _ _
  refine ⟨d, rfl, Document.requiredInt32_eq version, ?_⟩
  rw [Envelope.decodeDocument_eq version (SortedMap.get?_insert_same _ _ _)]
  have name_read : d.decodeField nameField (nameCodec nameField) = .ok definition.name :=
    Document.decodeField_eq name rfl
  have value_read := Document.decodeField_eq value (decimalCodec_decode valueField readable)
  simp only [Definition.read, name_read, value_read, ok_bind]
  rfl

def Element.Readable (element : Element) : Prop :=
  ∀ definition ∈ element.definitions.keys, definition.value.Readable

@[simp] theorem Element.of_keys (element : Element) :
    of element.name element.definitions.keys = element := by
  unfold of
  rw [SortedMap.ofKeys_keys]

theorem Element.envelope_keeps {element : Element} (readable : element.Readable) :
    Element.envelope.Keeps element := by
  obtain ⟨values, written, read⟩ := mapM_keeps fun definition member =>
    Envelope.codec_keeps (Definition.envelope_keeps (readable definition member))
  let d := ((Document.empty.set versionField (.int32 1)).set nameField
    (.string element.name.text)).set definitionsField (.array values)
  have version : d.get? versionField = some (.int32 1) := by
    simp [d, versionField, nameField, definitionsField]
  have name : d.get? nameField = some (.string element.name.text) := by
    simp [d, nameField, definitionsField]
  have definitions : d.get? definitionsField = some (.array values) :=
    Document.get?_set_same _ _ _
  refine ⟨d, ?_, Document.requiredInt32_eq version, ?_⟩
  · change Element.write element _ = _
    simp only [Element.write, written, ok_bind]
    rfl
  · rw [Envelope.decodeDocument_eq version (SortedMap.get?_insert_same _ _ _)]
    have name_read : d.decodeField nameField (nameCodec nameField) = .ok element.name :=
      Document.decodeField_eq name rfl
    simp only [Element.read, Document.requiredArray_eq definitions, read, name_read, ok_bind]
    exact congrArg Except.ok (Element.of_keys element)

def Structure.Readable (s : Structure) : Prop := ∀ element ∈ s.elements.nodes, element.Readable

theorem Structure.envelope_keeps {s : Structure} (readable : s.Readable)
    (small : s.elements.nodeCount ≤ maxPosition) {writtenAt : Int}
    (year : Timestamp.FourDigitYear writtenAt) : Structure.envelope.Keeps s writtenAt := by
  obtain ⟨elements, written, read⟩ := Graph.codec_keeps small fun element member =>
    Envelope.codec_keeps (Element.envelope_keeps (readable element member))
  let d := (IdentifiedEnvelope.header 1 (.string s.id.text) writtenAt).set elementsField elements
  have stamped : IdentifiedEnvelope.Stamped d 1 (.string s.id.text) writtenAt :=
    (IdentifiedEnvelope.header_stamped _ _ _).set elements (by decide)
  have headed : Structure.envelope.readHeader d = .ok ⟨s.id, 1, writtenAt⟩ :=
    IdentifiedEnvelope.readHeader_eq stamped rfl year
  have graph : d.get? elementsField = some elements := Document.get?_set_same _ _ _
  refine ⟨d, ?_, headed, ?_⟩
  · change Structure.write s _ = _
    simp only [Structure.write, written, ok_bind]
    rfl
  · rw [IdentifiedEnvelope.decodeDocument_eq headed (SortedMap.get?_insert_same _ _ _)]
    simp only [Structure.read, Document.decodeField_eq graph read, ok_bind]
    rfl

@[simp] theorem Status.ofText?_text (status : Status) :
    Status.ofText? status.text = some status := by
  cases status <;> simp [Status.ofText?, Status.text]

def Computation.Readable (c : Computation) : Prop := ∀ value ∈ c.result, value.Readable

def Computation.storedResult (c : Computation) : Value :=
  Value.ofOption (c.result.map fun value => .string value.text)

def Computation.document (c : Computation) (writtenAt : Int) : Document :=
  (((((IdentifiedEnvelope.header 2 (.string c.id.text) writtenAt).set structureIdField
    (.string c.structureId.text)).set elementNameField (.string c.elementName.text)).set
      expressionField (.string c.formula.text)).set statusField (.string c.status.text)).set
        resultField c.storedResult

structure Computation.AskedIn (c : Computation) (d : Document) : Prop where
  id : d.get? idField = some (.string c.id.text)
  structureId : d.get? structureIdField = some (.string c.structureId.text)
  elementName : d.get? elementNameField = some (.string c.elementName.text)
  formula : d.get? expressionField = some (.string c.formula.text)

namespace Computation

theorem encodeDocument_eq (c : Computation) (writtenAt : Int) :
    Computation.envelope.encodeDocument c writtenAt = .ok (c.document writtenAt) := by
  change Computation.write c _ = _
  unfold Computation.write
  cases stored : c.result with
  | none =>
    simp only [document, storedResult, stored]
    rfl
  | some value =>
    simp only [document, storedResult, stored]
    rfl

theorem document_stamped (c : Computation) (writtenAt : Int) :
    IdentifiedEnvelope.Stamped (c.document writtenAt) 2 (.string c.id.text) writtenAt :=
  (((((IdentifiedEnvelope.header_stamped _ _ _).set _ (by decide)).set _ (by decide)).set _
    (by decide)).set _ (by decide)).set _ (by decide)

theorem document_asked (c : Computation) (writtenAt : Int) :
    c.AskedIn (c.document writtenAt) := by
  constructor
  · exact (c.document_stamped writtenAt).id
  · simp [document, structureIdField, elementNameField, expressionField, statusField, resultField]
  · simp [document, elementNameField, expressionField, statusField, resultField]
  · simp [document, expressionField, statusField, resultField]

theorem readFirst_of_asked {c : Computation} {d : Document} (asked : c.AskedIn d) :
    Computation.readFirst c.id d =
      .ok ⟨c.id, c.structureId, c.elementName, c.formula, .new, none⟩ := by
  have structureId_read : d.decodeField structureIdField (structureIdCodec structureIdField) =
      .ok c.structureId := Document.decodeField_eq asked.structureId rfl
  have elementName_read : d.decodeField elementNameField (nameCodec elementNameField) =
      .ok c.elementName := Document.decodeField_eq asked.elementName rfl
  have formula_read : d.decodeField expressionField (formulaCodec expressionField) =
      .ok c.formula := Document.decodeField_eq asked.formula rfl
  simp only [Computation.readFirst, structureId_read, elementName_read, formula_read, ok_bind]
  rfl

theorem status_read (c : Computation) (writtenAt : Int) :
    Status.readField (c.document writtenAt) = .ok c.status := by
  have status : (c.document writtenAt).get? statusField = some (.string c.status.text) := by
    simp [document, statusField, resultField]
  simp only [Status.readField, Document.requiredString_eq status, Status.ofText?_text, ok_bind]
  rfl

theorem result_given (c : Computation) (writtenAt : Int) :
    (c.document writtenAt).getOptional? resultField =
      c.result.map fun value => .string value.text := by
  have stored : (c.document writtenAt).get? resultField = some c.storedResult :=
    Document.get?_set_same _ _ _
  rw [Document.getOptional?, stored, storedResult]
  cases c.result <;> rfl

theorem envelope_keeps {c : Computation} (readable : c.Readable) {writtenAt : Int}
    (year : Timestamp.FourDigitYear writtenAt) : Computation.envelope.Keeps c writtenAt := by
  have headed : Computation.envelope.readHeader (c.document writtenAt) =
      .ok ⟨c.id, 2, writtenAt⟩ :=
    IdentifiedEnvelope.readHeader_eq (c.document_stamped writtenAt) rfl year
  refine ⟨c.document writtenAt, c.encodeDocument_eq writtenAt, headed, ?_⟩
  rw [IdentifiedEnvelope.decodeDocument_eq headed (SortedMap.get?_insert_same _ _ _)]
  simp only [Computation.readSecond, status_read, result_given,
    readFirst_of_asked (c.document_asked writtenAt), ok_bind]
  obtain ⟨id, structureId, elementName, formula, status, found⟩ := c
  cases found with
  | none => rfl
  | some value =>
    simp only [Option.map_some, decimalCodec_decode resultField (readable value rfl), ok_map]
    rfl

end Computation

/-- Entities of every kind come back from their documents, and those with an identity come with
    the header they were written with. -/
theorem entities_read_back :
    (∀ definition : Definition, definition.value.Readable →
      Definition.envelope.Keeps definition) ∧
    (∀ element : Element, element.Readable → Element.envelope.Keeps element) ∧
    (∀ (s : Structure) (writtenAt : Int), s.Readable → s.elements.nodeCount ≤ maxPosition →
      Timestamp.FourDigitYear writtenAt →
        Structure.envelope.Keeps s writtenAt ∧ s.same s = true) ∧
    ∀ (c : Computation) (writtenAt : Int), c.Readable → Timestamp.FourDigitYear writtenAt →
      Computation.envelope.Keeps c writtenAt := by
  refine ⟨fun _ => Definition.envelope_keeps, fun _ => Element.envelope_keeps, ?_, ?_⟩
  · intro s writtenAt readable small year
    refine ⟨Structure.envelope_keeps readable small year, ?_⟩
    unfold Structure.same
    rw [Graph.same_self, decide_eq_true rfl]
    rfl
  · intro c writtenAt readable year
    exact Computation.envelope_keeps readable year

def sampleDecimal : Decimal :=
  ⟨125, -1, by decide, by decide, by decide, by decide⟩

def sampleElement : Element :=
  .of ⟨"pump"⟩ [⟨⟨"rate"⟩, sampleDecimal⟩, ⟨⟨"rate"⟩, .zero⟩]

def sampleGraph : Graph Element :=
  ((Graph.empty.withEdge sampleElement (.named ⟨"tank"⟩)).withEdge (.named ⟨"tank"⟩)
    sampleElement).withEdge sampleElement sampleElement

def sampleComputation : Computation :=
  ⟨⟨"c-1"⟩, ⟨"s-1"⟩, ⟨"pump"⟩, ⟨"rate + 1"⟩, .done, some sampleDecimal⟩

theorem sampleDecimal_readable : sampleDecimal.Readable := ⟨"12.50", by rfl⟩

theorem zero_readable : Decimal.zero.Readable := ⟨"0", by rfl⟩

theorem sampleElement_readable : sampleElement.Readable := by
  have keys : sampleElement.definitions.keys =
      [⟨⟨"rate"⟩, .zero⟩, ⟨⟨"rate"⟩, sampleDecimal⟩] := by rfl
  intro definition member
  rw [keys] at member
  rcases List.mem_cons.mp member with rfl | later
  · exact zero_readable
  · rw [List.mem_singleton.mp later]
    exact sampleDecimal_readable

def sampleStructure : Structure := ⟨⟨"s-1"⟩, sampleGraph⟩

theorem sampleStructure_readable : sampleStructure.Readable := by
  intro element member
  rcases List.mem_cons.mp member with rfl | later
  · exact sampleElement_readable
  · rw [List.mem_singleton.mp later]
    intro definition defined
    cases defined

theorem sample_entities_read_back :
    Definition.envelope.Keeps ⟨⟨"rate"⟩, sampleDecimal⟩ ∧ Element.envelope.Keeps sampleElement ∧
      Structure.envelope.Keeps sampleStructure 1700000000000000 ∧
      Computation.envelope.Keeps sampleComputation 1700000000000000 := by
  obtain ⟨definitions, elements, structures, computations⟩ := entities_read_back
  refine ⟨definitions _ sampleDecimal_readable, elements _ sampleElement_readable, ?_, ?_⟩
  · exact (structures _ _ sampleStructure_readable (by decide) (by decide)).1
  · refine computations _ _ ?_ (by decide)
    intro value stored
    cases stored
    exact sampleDecimal_readable

end EntityCatalog
