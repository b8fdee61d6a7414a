import EntityCatalog.Proofs.Graph.Changes
import EntityCatalog.Proofs.Schema.Entities

/- Reading a document and writing again what was read. Whatever the document looks like, the numbers
   that are read from it can be read again, and these are all that an entity needs to be kept. So
   what was read is written in the current version of its kind, and it comes back unchanged. -/
namespace EntityCatalog
variable {α ι ρ : Type}

namespace Document

theorem get?_of_required {d : Document} {field : String} {value : Value}
    (found : d.required field = .ok value) : d.get? field = some value := by
  unfold required at found
  cases given : d.get? field with
  | none =>
    rw [given] at found
    cases found
  | some stored =>
    rw [given] at found
    cases found
    rfl

theorem get?_of_requiredInt32 {d : Document} {field : String} {number : Int32}
    (found : d.requiredInt32 field = .ok number) : d.get? field = some (.int32 number) := by
  obtain ⟨value, here, seen⟩ := bind_eq_ok.mp found
  cases value with
  | int32 _ =>
    cases seen
    exact get?_of_required here
  | null | bool _ | int64 _ | string _ | array _ | document _ => cases seen

theorem get?_of_requiredString {d : Document} {field text : String}
    (found : d.requiredString field = .ok text) : d.get? field = some (.string text) := by
  obtain ⟨value, here, seen⟩ := bind_eq_ok.mp found
  cases value with
  | string _ =>
    cases seen
    exact get?_of_required here
  | null | bool _ | int32 _ | int64 _ | array _ | document _ => cases seen

theorem decodeField_eq_ok {d : Document} {field : String} {codec : Codec α} {item : α}
    (read : d.decodeField field codec = .ok item) :
    ∃ value, d.get? field = some value ∧ codec.decode value = .ok item := by
  obtain ⟨value, found, decoded⟩ := bind_eq_ok.mp read
  exact ⟨value, get?_of_required found, decoded⟩

def Dated (d : Document) : Prop :=
  ∃ text timestamp, d.requiredString dateField = .ok text ∧ Timestamp.read text = .ok timestamp

end Document

theorem textCodec_decode_eq_ok {field : String} {wrap : String → α} {unwrap : α → String}
    {value : Value} {item : α} (read : (textCodec field wrap unwrap).decode value = .ok item) :
    ∃ text, value = .string text ∧ wrap text = item := by
  obtain ⟨text, seen, made⟩ := map_eq_ok.mp read
  cases value with
  | string _ =>
    cases seen
    exact ⟨_, rfl, made⟩
  | null | bool _ | int32 _ | int64 _ | array _ | document _ => cases seen

theorem Document.decodeField_text {d : Document} {field name : String} {wrap : String → α}
    {unwrap : α → String} {item : α}
    (read : d.decodeField field (textCodec name wrap unwrap) = .ok item) :
    ∃ text, d.get? field = some (.string text) ∧ wrap text = item := by
  obtain ⟨value, found, decoded⟩ := decodeField_eq_ok read
  obtain ⟨text, rfl, made⟩ := textCodec_decode_eq_ok decoded
  exact ⟨text, found, made⟩

theorem decimalCodec_decode_readable {field : String} {value : Value} {d : Decimal}
    (read : (decimalCodec field).decode value = .ok d) : d.Readable := by
  unfold decimalCodec at read
  dsimp only at read
  split at read
  · cases read
  · rename_i text _
    split at read
    · rename_i number made
      cases read
      exact ⟨text, made⟩
    · cases read

theorem Readers.select_eq_ok {readers : Readers ρ} {kind : Kind} {version : Int32} {reader : ρ}
    (known : readers.select kind version = .ok reader) : readers.get? version = some reader := by
  unfold select at known
  split at known
  · rename_i found here
    cases known
    exact here
  · cases known

theorem Envelope.decodeDocument_eq_ok {envelope : Envelope α} {d : Document} {item : α}
    (read : envelope.decodeDocument d = .ok item) :
    ∃ version reader, d.requiredInt32 versionField = .ok version ∧
      envelope.readers.get? version = some reader ∧ reader d = .ok item := by
  obtain ⟨version, stamped, selected⟩ := bind_eq_ok.mp read
  obtain ⟨reader, known, made⟩ := bind_eq_ok.mp selected
  exact ⟨version, reader, stamped, Readers.select_eq_ok known, made⟩

namespace IdentifiedEnvelope

theorem decodeDocument_eq_ok {envelope : IdentifiedEnvelope α ι} {d : Document} {item : α}
    (read : envelope.decodeDocument d = .ok item) :
    ∃ header reader, envelope.readHeader d = .ok header ∧
      envelope.readers.get? header.version = some reader ∧ reader header.id d = .ok item := by
  obtain ⟨header, headed, selected⟩ := bind_eq_ok.mp read
  obtain ⟨reader, known, made⟩ := bind_eq_ok.mp selected
  exact ⟨header, reader, headed, Readers.select_eq_ok known, made⟩

structure Headed (ids : Codec ι) (d : Document) (header : Header ι) : Prop where
  id : ∃ value, d.get? idField = some value ∧ ids.decode value = .ok header.id
  version : d.get? versionField = some (.int32 header.version)
  date : ∃ text timestamp, d.get? dateField = some (.string text) ∧
    Timestamp.read text = .ok timestamp ∧ timestamp.micros = header.writtenAt

theorem Headed.dated {ids : Codec ι} {d : Document} {header : Header ι}
    (headed : Headed ids d header) : d.Dated := by
  obtain ⟨text, timestamp, given, read, -⟩ := headed.date
  exact ⟨text, timestamp, Document.requiredString_eq given, read⟩

theorem readHeader_eq_ok {envelope : IdentifiedEnvelope α ι} {d : Document} {header : Header ι} :
    envelope.readHeader d = .ok header ↔ Headed envelope.idCodec d header := by
  constructor
  · intro read
    obtain ⟨value, found, unidentified⟩ := bind_eq_ok.mp read
    obtain ⟨id, identified, unversioned⟩ := bind_eq_ok.mp unidentified
    obtain ⟨version, versioned, undated⟩ := bind_eq_ok.mp unversioned
    obtain ⟨date, dated, timed⟩ := bind_eq_ok.mp undated
    split at timed
    · rename_i timestamp made
      cases timed
      constructor
      · exact ⟨value, Document.get?_of_required found, identified⟩
      · exact Document.get?_of_requiredInt32 versioned
      · exact ⟨date, timestamp, Document.get?_of_requiredString dated, made, rfl⟩
    · cases timed
  · rintro ⟨⟨value, here, identified⟩, version, text, timestamp, given, made, micros⟩
    unfold readHeader
    simp only [Document.required_eq here, identified, Document.requiredInt32_eq version,
      Document.requiredString_eq given, made, ok_bind, micros]
    rfl

end IdentifiedEnvelope

theorem Definition.read_readable {d : Document} {definition : Definition}
    (made : Definition.envelope.decodeDocument d = .ok definition) :
    definition.value.Readable := by
  obtain ⟨version, reader, -, known, read⟩ := Envelope.decodeDocument_eq_ok made
  rcases SortedMap.get?_insert_eq_some known with ⟨-, rfl⟩ | older
  · obtain ⟨name, -, unvalued⟩ := bind_eq_ok.mp read
    obtain ⟨value, valued, joined⟩ := bind_eq_ok.mp unvalued
    obtain ⟨stored, -, decoded⟩ := Document.decodeField_eq_ok valued
    cases joined
    exact decimalCodec_decode_readable decoded
  · cases older

theorem Envelope.codec_decode_eq_ok {envelope : Envelope α} {value : Value} {item : α}
    (read : envelope.codec.decode value = .ok item) :
    ∃ d, envelope.decodeDocument d = .ok item := by
  obtain ⟨d, -, decoded⟩ := bind_eq_ok.mp read
  exact ⟨d, decoded⟩

theorem Element.read_readable {d : Document} {element : Element}
    (made : Element.envelope.decodeDocument d = .ok element) : element.Readable := by
  obtain ⟨version, reader, -, known, read⟩ := Envelope.decodeDocument_eq_ok made
  rcases SortedMap.get?_insert_eq_some known with ⟨-, rfl⟩ | older
  · obtain ⟨items, -, undefined⟩ := bind_eq_ok.mp read
    obtain ⟨definitions, defined, unnamed⟩ := bind_eq_ok.mp undefined
    obtain ⟨name, -, joined⟩ := bind_eq_ok.mp unnamed
    cases joined
    intro definition member
    obtain ⟨item, -, decoded⟩ := mem_of_mapM defined (SortedMap.mem_of_mem_ofKeys member)
    obtain ⟨inner, from_inner⟩ := Envelope.codec_decode_eq_ok decoded
    exact Definition.read_readable from_inner
  · cases older

namespace Graph
variable {N : Type}

theorem mem_of_nodeAt {nodes : List N} {index : Int32} {node : N}
    (found : nodeAt nodes index = .ok node) : node ∈ nodes := by
  obtain ⟨position, -, here⟩ := nodeAt_eq_ok.mp found
  exact List.mem_of_getElem? here

theorem mem_of_readEdge {nodes : List N} {value : Value} {edge : N × N}
    (read : readEdge nodes value = .ok edge) : edge.1 ∈ nodes ∧ edge.2 ∈ nodes := by
  obtain ⟨d, -, fields⟩ := bind_eq_ok.mp read
  obtain ⟨source_index, -, unsourced⟩ := bind_eq_ok.mp fields
  obtain ⟨source, source_read, rest⟩ := bind_eq_ok.mp unsourced
  obtain ⟨target_index, -, untargeted⟩ := bind_eq_ok.mp rest
  obtain ⟨target, target_read, joined⟩ := bind_eq_ok.mp untargeted
  cases joined
  exact ⟨mem_of_nodeAt source_read, mem_of_nodeAt target_read⟩

theorem read_of_mem_nodes [DecidableEq N] {node : Codec N} {value : Value} {g : Graph N}
    (read : (codec node).decode value = .ok g) {vertex : N} (member : vertex ∈ g.nodes) :
    ∃ stored, node.decode stored = .ok vertex := by
  obtain ⟨d, -, fields⟩ := bind_eq_ok.mp read
  obtain ⟨node_values, -, unread⟩ := bind_eq_ok.mp fields
  obtain ⟨nodes, nodes_read, rest⟩ := bind_eq_ok.mp unread
  obtain ⟨edge_values, -, unlinked⟩ := bind_eq_ok.mp rest
  obtain ⟨edges, edges_read, joined⟩ := bind_eq_ok.mp unlinked
  cases joined
  have listed : vertex ∈ nodes := by
    rcases mem_nodes_ofLists member with listed | ⟨edge, at_edges, ends⟩
    · exact listed
    · obtain ⟨edge_value, -, edge_read⟩ := mem_of_mapM edges_read at_edges
      obtain ⟨source_listed, target_listed⟩ := mem_of_readEdge edge_read
      rcases ends with source | target
      · rw [source]
        exact source_listed
      · rw [target]
        exact target_listed
  obtain ⟨stored, -, decoded⟩ := mem_of_mapM nodes_read listed
  exact ⟨stored, decoded⟩

end Graph

theorem Structure.read_readable {d : Document} {s : Structure}
    (made : Structure.envelope.decodeDocument d = .ok s) : s.Readable := by
  obtain ⟨header, reader, -, known, read⟩ := IdentifiedEnvelope.decodeDocument_eq_ok made
  rcases SortedMap.get?_insert_eq_some known with ⟨-, rfl⟩ | older
  · obtain ⟨elements, elements_read, joined⟩ := bind_eq_ok.mp read
    obtain ⟨value, -, decoded⟩ := Document.decodeField_eq_ok elements_read
    cases joined
    intro element member
    obtain ⟨stored, element_read⟩ := Graph.read_of_mem_nodes decoded member
    obtain ⟨inner, from_inner⟩ := Envelope.codec_decode_eq_ok element_read
    exact Element.read_readable from_inner
  · cases older

namespace Computation

theorem readFirst_eq_ok {id : ComputationId} {d : Document} {c : Computation}
    (identified : d.get? idField = some (.string id.text)) (read : readFirst id d = .ok c) :
    c.AskedIn d ∧ c.status = .new ∧ c.result = none := by
  obtain ⟨structureId, structureId_read, unnamed⟩ := bind_eq_ok.mp read
  obtain ⟨elementName, elementName_read, unformed⟩ := bind_eq_ok.mp unnamed
  obtain ⟨formula, formula_read, joined⟩ := bind_eq_ok.mp unformed
  cases joined
  obtain ⟨_, structureId_here, rfl⟩ := Document.decodeField_text structureId_read
  obtain ⟨_, elementName_here, rfl⟩ := Document.decodeField_text elementName_read
  obtain ⟨_, formula_here, rfl⟩ := Document.decodeField_text formula_read
  exact ⟨⟨identified, structureId_here, elementName_here, formula_here⟩, rfl, rfl⟩

theorem readSecond_eq_ok {id : ComputationId} {d : Document} {c : Computation}
    (identified : d.get? idField = some (.string id.text)) (read : readSecond id d = .ok c) :
    c.AskedIn d ∧ c.Readable := by
  obtain ⟨status, -, unfinished⟩ := bind_eq_ok.mp read
  -- The fields common to both versions are read after the result, present or not.
  have closed {result : Option Decimal}
      (made : (readFirst id d >>= fun c =>
        pure { c with status := status, result := result }) = Except.ok c) :
      c.AskedIn d ∧ c.result = result := by
    obtain ⟨asked, asked_read, joined⟩ := bind_eq_ok.mp made
    cases joined
    obtain ⟨fields, -⟩ := readFirst_eq_ok identified asked_read
    exact ⟨⟨fields.id, fields.structureId, fields.elementName, fields.formula⟩, rfl⟩
  dsimp only at unfinished
  split at unfinished
  · obtain ⟨result, result_read, made⟩ := bind_eq_ok.mp unfinished
    obtain ⟨number, decoded, rfl⟩ := map_eq_ok.mp result_read
    obtain ⟨asked, same⟩ := closed made
    refine ⟨asked, ?_⟩
    intro value stored
    rw [same] at stored
    cases stored
    exact decimalCodec_decode_readable decoded
  · obtain ⟨asked, same⟩ := closed unfinished
    refine ⟨asked, ?_⟩
    intro value stored
    rw [same] at stored
    cases stored

theorem decodeDocument_asked {d : Document} {c : Computation}
    (made : Computation.envelope.decodeDocument d = .ok c) :
    c.AskedIn d ∧ c.Readable ∧ d.Dated ∧
      (d.requiredInt32 versionField = .ok 1 → c.status = .new ∧ c.result = none) := by
  obtain ⟨header, reader, headed, known, read⟩ := IdentifiedEnvelope.decodeDocument_eq_ok made
  have fields := IdentifiedEnvelope.readHeader_eq_ok.mp headed
  obtain ⟨value, found, decoded⟩ := fields.id
  obtain ⟨text, rfl, wrapped⟩ := textCodec_decode_eq_ok decoded
  have identified : d.get? idField = some (.string header.id.text) := by
    rw [found, ← wrapped]
  rcases SortedMap.get?_insert_eq_some known with ⟨second, rfl⟩ | older
  · obtain ⟨asked, readable⟩ := readSecond_eq_ok identified read
    refine ⟨asked, readable, fields.dated, ?_⟩
    intro first
    rw [Document.requiredInt32_eq fields.version, second] at first
    cases first
  · rcases SortedMap.get?_insert_eq_some older with ⟨-, rfl⟩ | none
    · obtain ⟨asked, new, unfinished⟩ := readFirst_eq_ok identified read
      refine ⟨asked, ?_, fields.dated, fun _ => ⟨new, unfinished⟩⟩
      intro value stored
      rw [unfinished] at stored
      cases stored
    · cases none

theorem decodeDocument_first {d : Document} {c : Computation}
    (first : d.requiredInt32 versionField = .ok 1) :
    Computation.envelope.decodeDocument d = .ok c ↔
      c.AskedIn d ∧ d.Dated ∧ c.status = .new ∧ c.result = none := by
  constructor
  · intro made
    obtain ⟨asked, -, dated, new⟩ := decodeDocument_asked made
    exact ⟨asked, dated, new first⟩
  · intro given
    obtain ⟨asked, ⟨text, timestamp, dated, timed⟩, new, unfinished⟩ := given
    have headed : Computation.envelope.readHeader d = .ok ⟨c.id, 1, timestamp.micros⟩ := by
      refine IdentifiedEnvelope.readHeader_eq_ok.mpr ⟨⟨_, asked.id, rfl⟩, ?_, ?_⟩
      · exact Document.get?_of_requiredInt32 first
      · exact ⟨text, timestamp, Document.get?_of_requiredString dated, timed, rfl⟩
    have known : Computation.envelope.readers.get? 1 = some readFirst :=
      (SortedMap.get?_insert_other _ _ (by decide)).trans (SortedMap.get?_insert_same _ _ _)
    rw [IdentifiedEnvelope.decodeDocument_eq headed known, readFirst_of_asked asked, ← new,
      ← unfinished]

theorem encodeDocument_asked {c : Computation} {writtenAt : Int} {d : Document}
    (written : Computation.envelope.encodeDocument c writtenAt = .ok d) : c.AskedIn d := by
  rw [encodeDocument_eq] at written
  cases written
  exact c.document_asked writtenAt

end Computation

/-- What is read from any document can be saved: it is written in the current version of its kind
    and read again as it is. A computation keeps its identity and its request, and a document of the
    first version is read, as a new computation without a result, whenever it holds these. -/
theorem read_entities_save_again :
    (∀ d definition, Definition.envelope.decodeDocument d = .ok definition →
      Definition.envelope.Keeps definition) ∧
    (∀ d element, Element.envelope.decodeDocument d = .ok element →
      Element.envelope.Keeps element) ∧
    (∀ d s writtenAt, Structure.envelope.decodeDocument d = .ok s →
      s.elements.nodeCount ≤ maxPosition → Timestamp.FourDigitYear writtenAt →
        Structure.envelope.Keeps s writtenAt) ∧
    (∀ d c writtenAt, Computation.envelope.decodeDocument d = .ok c →
      Timestamp.FourDigitYear writtenAt →
        Computation.envelope.Keeps c writtenAt ∧ c.AskedIn d ∧
        ∀ written, Computation.envelope.encodeDocument c writtenAt = .ok written →
          c.AskedIn written) ∧
    ∀ (d : Document) (c : Computation), d.requiredInt32 versionField = .ok 1 →
      (Computation.envelope.decodeDocument d = .ok c ↔
        c.AskedIn d ∧ d.Dated ∧ c.status = .new ∧ c.result = none) := by
  refine ⟨?_, ?_, ?_, ?_, ?_⟩
  · intro d definition made
    exact Definition.envelope_keeps (Definition.read_readable made)
  · intro d element made
    exact Element.envelope_keeps (Element.read_readable made)
  · intro d s writtenAt made small year
    exact Structure.envelope_keeps (Structure.read_readable made) small year
  · intro d c writtenAt made year
    obtain ⟨asked, readable, -, -⟩ := Computation.decodeDocument_asked made
    refine ⟨Computation.envelope_keeps readable year, asked, ?_⟩
    intro written write
    exact Computation.encodeDocument_asked write
  · intro d c first
    exact Computation.decodeDocument_first first

def untidyDefinition (text : String) : Document :=
  ⟨[(valueField, .string text), ("unit", .null), (versionField, .int32 1),
    (nameField, .string "rate")]⟩

/-- The same number twice, in two spellings, and a smaller one after them. -/
def untidyElement : Document :=
  ⟨[(definitionsField, .array [(untidyDefinition "+12.50").toValue,
      (untidyDefinition "125e-1").toValue, (untidyDefinition "-0.0").toValue]),
    (nameField, .string "pump"), (versionField, .int32 1)]⟩

def untidyStructure : Document :=
  ⟨[(elementsField, .document
      [(Graph.edgesField, .array [.document
        [(Graph.targetField, .int32 1), (Graph.sourceField, .int32 0)]]),
        (Graph.nodesField, .array [untidyElement.toValue, untidyElement.toValue])]),
    (dateField, .string "2023-11-14T23:13:20.5+01:00"), (versionField, .int32 1),
    (idField, .string "s-1")]⟩

/-- Of the first version, which has no status, so that this one has no meaning. -/
def firstComputation : Document :=
  ⟨[(statusField, .string "DONE"), (expressionField, .string "rate + 1"),
    (elementNameField, .string "pump"), (structureIdField, .string "s-1"),
    (dateField, .string "2023-11-14T22:13:20Z"), (versionField, .int32 1),
    (idField, .string "c-1")]⟩

def freshSample : Computation := { sampleComputation with status := .new, result := none }

theorem sample_entities_save_again :
    (Definition.envelope.decodeDocument (untidyDefinition "+12.50") =
        .ok ⟨⟨"rate"⟩, sampleDecimal⟩ ∧ Definition.envelope.Keeps ⟨⟨"rate"⟩, sampleDecimal⟩) ∧
    (Element.envelope.decodeDocument untidyElement = .ok sampleElement ∧
      Element.envelope.Keeps sampleElement) ∧
    (∃ s, Structure.envelope.decodeDocument untidyStructure = .ok s ∧
      s.elements.nodes = [sampleElement] ∧ Structure.envelope.Keeps s 1700000000000000) ∧
    firstComputation.requiredInt32 versionField = .ok 1 ∧
      Computation.envelope.decodeDocument firstComputation = .ok freshSample ∧
      Computation.envelope.Keeps freshSample 1700000000000000 := by
  obtain ⟨definitions, elements, structures, computations, first⟩ := read_entities_save_again
  have definition_read : Definition.envelope.decodeDocument (untidyDefinition "+12.50") =
      .ok ⟨⟨"rate"⟩, sampleDecimal⟩ := rfl
  have element_read : Element.envelope.decodeDocument untidyElement = .ok sampleElement := rfl
  obtain ⟨s, structure_read, nodes⟩ :
      ∃ s, Structure.envelope.decodeDocument untidyStructure = .ok s ∧
        s.elements.nodes = [sampleElement] := ⟨_, rfl, rfl⟩
  have small : s.elements.nodeCount ≤ maxPosition := by
    rw [← Graph.nodes_length, nodes]
    decide
  have versioned : firstComputation.requiredInt32 versionField = .ok 1 := rfl
  have asked : freshSample.AskedIn firstComputation := ⟨rfl, rfl, rfl, rfl⟩
  have computation_read : Computation.envelope.decodeDocument firstComputation = .ok freshSample :=
    (first _ _ versioned).mpr ⟨asked, ⟨_, _, rfl, rfl⟩, rfl, rfl⟩
  refine ⟨⟨definition_read, definitions _ _ definition_read⟩,
    ⟨element_read, elements _ _ element_read⟩, ⟨s, structure_read, nodes, ?_⟩, versioned,
    computation_read, ?_⟩
  · exact structures _ _ _ structure_read small (by decide)
  · exact (computations _ _ _ computation_read (by decide)).1

end EntityCatalog
