import EntityCatalog.Proofs.Schema.Resave
import Mathlib.Data.List.Forall2

/- Which fields a reader looks at. Each version of each kind of entity has its own, at every level
   of the document. Two documents that hold the same under these names are read with the same
   result, be it an entity or a fault, in whatever order their fields stand and whatever else
   they hold. -/
namespace EntityCatalog
open List (Forall₂)

variable {α β γ ε ι ρ N : Type}

/-- Related inputs have the same result. -/
def Respects (related : β → β → Prop) (read : β → ρ) : Prop :=
  ∀ ⦃first second⦄, related first second → read first = read second

namespace Respects

theorem const (related : β → β → Prop) (result : ρ) : Respects related fun _ => result :=
  fun _ _ _ => rfl

theorem bind {related : β → β → Prop} {read : β → Except ε α} {next : α → β → Except ε γ}
    (first_step : Respects related read) (next_step : ∀ made, Respects related (next made)) :
    Respects related fun input => read input >>= fun made => next made input := by
  intro first second alike
  beta_reduce
  rw [first_step alike]
  exact congrArg _ (funext fun made => next_step made alike)

theorem mapM {related : β → β → Prop} {read : β → Except ε α} (each : Respects related read) :
    Respects (Forall₂ related) fun items => items.mapM read := by
  intro items others alike
  induction alike with
  | nil => rfl
  | cons first_alike _ ih =>
    beta_reduce at ih ⊢
    rw [List.mapM_cons, List.mapM_cons, each first_alike, ih]

end Respects

namespace Document

def AgreeOn (fields : List String) (d other : Document) : Prop :=
  ∀ field ∈ fields, d.get? field = other.get? field

def AlikeAt (field : String) (related : Value → Value → Prop) (d other : Document) : Prop :=
  Option.Rel related (d.get? field) (other.get? field)

/-- The documents agree on their header, and if their version is one of the list, they are related
    in the way of that version. -/
structure AlikeAs (header : List String) (versions : List (Int32 × (Document → Document → Prop)))
    (d other : Document) : Prop where
  header : d.AgreeOn header other
  body : ∀ version related, (version, related) ∈ versions →
    d.get? versionField = some (.int32 version) → related d other

end Document

namespace Value

inductive AsDocuments (related : Document → Document → Prop) : Value → Value → Prop where
  | same (value : Value) : AsDocuments related value value
  | documents {fields others : List (String × Value)} (alike : related ⟨fields⟩ ⟨others⟩) :
      AsDocuments related (.document fields) (.document others)

inductive AsArrays (related : Value → Value → Prop) : Value → Value → Prop where
  | same (value : Value) : AsArrays related value value
  | arrays {items others : List Value} (alike : Forall₂ related items others) :
      AsArrays related (.array items) (.array others)

end Value

open Document (AgreeOn AlikeAt AlikeAs)
open Value (AsDocuments AsArrays)

def Definition.Alike : Document → Document → Prop :=
  AlikeAs [versionField] [(1, AgreeOn [nameField, valueField])]

structure Element.FieldsAlike (d other : Document) : Prop where
  definitions : AlikeAt definitionsField (AsArrays (AsDocuments Definition.Alike)) d other
  name : AgreeOn [nameField] d other

def Element.Alike : Document → Document → Prop := AlikeAs [versionField] [(1, Element.FieldsAlike)]

structure Graph.FieldsAlike (node : Value → Value → Prop) (d other : Document) : Prop where
  nodes : AlikeAt nodesField (AsArrays node) d other
  edges : AlikeAt edgesField (AsArrays (AsDocuments (AgreeOn [sourceField, targetField]))) d other

def Structure.Alike : Document → Document → Prop :=
  AlikeAs [idField, versionField, dateField]
    [(1, AlikeAt elementsField
      (AsDocuments (Graph.FieldsAlike (AsDocuments Element.Alike))))]

def Computation.firstFields : List String := [structureIdField, elementNameField, expressionField]

def Computation.Alike : Document → Document → Prop :=
  AlikeAs [idField, versionField, dateField]
    [(1, AgreeOn Computation.firstFields),
      (2, AgreeOn (statusField :: resultField :: Computation.firstFields))]

section Agreement
variable {fields : List String} {field : String}

theorem Document.AgreeOn.nil {d other : Document} : AgreeOn [] d other := by
  intro field member
  cases member

theorem Document.AgreeOn.cons {d other : Document} (here : d.get? field = other.get? field)
    (rest : AgreeOn fields d other) : AgreeOn (field :: fields) d other :=
  List.forall_mem_cons.mpr ⟨here, rest⟩

theorem Document.AgreeOn.subset {more : List String} {d other : Document}
    (agree : AgreeOn more d other) (inside : fields ⊆ more) : AgreeOn fields d other :=
  fun _ member => agree _ (inside member)

theorem respects_required (named : field ∈ fields) :
    Respects (AgreeOn fields) fun d => d.required field := by
  intro d other agree
  beta_reduce
  rw [Document.required, Document.required, agree field named]

theorem respects_requiredInt32 (named : field ∈ fields) :
    Respects (AgreeOn fields) fun d => d.requiredInt32 field :=
  (respects_required named).bind fun _ => .const _ _

theorem respects_requiredString (named : field ∈ fields) :
    Respects (AgreeOn fields) fun d => d.requiredString field :=
  (respects_required named).bind fun _ => .const _ _

theorem respects_decodeField (named : field ∈ fields) (codec : Codec α) :
    Respects (AgreeOn fields) fun d => d.decodeField field codec :=
  (respects_required named).bind fun _ => .const _ _

end Agreement

section Nesting
variable {related : Value → Value → Prop} {shape : Document → Document → Prop} {field : String}

theorem respects_required_alike {next : Value → Except SchemaFault ρ}
    (each : Respects related next) :
    Respects (AlikeAt field related) fun d => d.required field >>= next := by
  intro d other alike
  beta_reduce
  unfold AlikeAt at alike
  rw [Document.required, Document.required]
  generalize d.get? field = here, other.get? field = there at alike
  cases alike with
  | some values_alike => exact each values_alike
  | none => rfl

theorem respects_document {next : Document → Except SchemaFault ρ} (each : Respects shape next) :
    Respects (AsDocuments shape) fun value =>
      Document.expect field "document" Value.document? value >>= next := by
  intro value other alike
  cases alike with
  | same _ => rfl
  | documents documents_alike => exact each documents_alike

theorem respects_array {next : List Value → Except SchemaFault ρ}
    (each : Respects (Forall₂ related) next) :
    Respects (AsArrays related) fun value =>
      Document.expect field "array" Value.array? value >>= next := by
  intro value other alike
  cases alike with
  | same _ => rfl
  | arrays items_alike => exact each items_alike

theorem respects_items {read : Value → Except SchemaFault α}
    {next : List α → Document → Except SchemaFault ρ}
    (alike_at : ∀ ⦃d other⦄, shape d other → AlikeAt field (AsArrays related) d other)
    (each : Respects related read) (next_step : ∀ made, Respects shape (next made)) :
    Respects shape fun d =>
      d.requiredArray field >>= fun items => items.mapM read >>= fun made => next made d := by
  have list_read : Respects shape fun d =>
      d.requiredArray field >>= fun items => items.mapM read := by
    intro d other alike
    refine (bind_assoc (d.required field) _ _).trans ?_
    refine Eq.trans ?_ (bind_assoc (other.required field) _ _).symm
    exact respects_required_alike (respects_array each.mapM) (alike_at alike)
  -- The rest may depend on the whole document, so the array is one step by itself.
  intro d other alike
  simpa only [bind_assoc] using list_read.bind next_step alike

end Nesting

theorem Readers.select_bind_congr {readers : Readers ρ} {version : Int32}
    {run other_run : ρ → Except SchemaFault α}
    (same : ∀ reader, readers.get? version = some reader → run reader = other_run reader)
    (kind : Kind) :
    (readers.select kind version >>= run) = (readers.select kind version >>= other_run) := by
  -- Only a reader that is there is ever run.
  unfold select
  cases known : readers.get? version with
  | none => rfl
  | some reader => exact same reader known

/-- An envelope looks at what its readers look at, and each of these looks at the fields of its
    version. -/
theorem Envelope.respects {envelope : Envelope α} {header : List String}
    {versions : List (Int32 × (Document → Document → Prop))} (named : versionField ∈ header)
    (readers : ∀ version reader, envelope.readers.get? version = some reader →
      ∃ related, (version, related) ∈ versions ∧ Respects related reader) :
    Respects (AlikeAs header versions) envelope.decodeDocument := by
  intro d other alike
  have version : d.requiredInt32 versionField = other.requiredInt32 versionField :=
    respects_requiredInt32 named alike.header
  unfold decodeDocument
  rw [← version]
  cases stamped : d.requiredInt32 versionField with
  | error fault => rfl
  | ok version =>
    -- From here on both documents are in the hands of one reader.
    refine Readers.select_bind_congr (fun reader known => ?_) envelope.kind
    obtain ⟨related, listed, respects⟩ := readers version reader known
    exact respects (alike.body _ _ listed (Document.get?_of_requiredInt32 stamped))

namespace IdentifiedEnvelope

theorem respects_header (envelope : IdentifiedEnvelope α ι) :
    Respects (AgreeOn [idField, versionField, dateField]) envelope.readHeader := by
  intro d other agree
  have id : d.required idField = other.required idField := respects_required (by simp) agree
  have version : d.requiredInt32 versionField = other.requiredInt32 versionField :=
    respects_requiredInt32 (by simp) agree
  have date : d.requiredString dateField = other.requiredString dateField :=
    respects_requiredString (by simp) agree
  simp only [readHeader, id, version, date]

theorem respects {envelope : IdentifiedEnvelope α ι}
    {versions : List (Int32 × (Document → Document → Prop))}
    (readers : ∀ version reader, envelope.readers.get? version = some reader →
      ∃ related, (version, related) ∈ versions ∧ ∀ id, Respects related (reader id)) :
    Respects (AlikeAs [idField, versionField, dateField] versions) envelope.decodeDocument := by
  intro d other alike
  unfold decodeDocument
  rw [← envelope.respects_header alike.header]
  cases headed : envelope.readHeader d with
  | error fault => rfl
  | ok header =>
    refine Readers.select_bind_congr (fun reader known => ?_) envelope.kind
    obtain ⟨related, listed, respects⟩ := readers header.version reader known
    have stamped := (readHeader_eq_ok.mp headed).version
    exact respects header.id (alike.body _ _ listed stamped)

end IdentifiedEnvelope

theorem Definition.read_respects : Respects (AgreeOn [nameField, valueField]) Definition.read :=
  (respects_decodeField (by simp) _).bind fun _ =>
    (respects_decodeField (by simp) _).bind fun _ => .const _ _

theorem Definition.respects : Respects Alike Definition.envelope.decodeDocument := by
  apply Envelope.respects (by simp)
  intro version reader known
  rcases SortedMap.get?_insert_eq_some known with ⟨rfl, rfl⟩ | older
  · exact ⟨_, by simp, Definition.read_respects⟩
  · cases older

theorem Envelope.codec_respects {envelope : Envelope α} {related : Document → Document → Prop}
    (respects : Respects related envelope.decodeDocument) :
    Respects (AsDocuments related) envelope.codec.decode :=
  respects_document respects

theorem Element.read_respects : Respects FieldsAlike Element.read := by
  refine respects_items (fun _ _ alike => alike.definitions)
    (Envelope.codec_respects Definition.respects) fun definitions => ?_
  intro d other alike
  exact (respects_decodeField (by simp) _).bind (fun _ => .const _ _) alike.name

theorem Element.respects : Respects Alike Element.envelope.decodeDocument := by
  apply Envelope.respects (by simp)
  intro version reader known
  rcases SortedMap.get?_insert_eq_some known with ⟨rfl, rfl⟩ | older
  · exact ⟨_, by simp, Element.read_respects⟩
  · cases older

namespace Graph

theorem readEdge_respects (nodes : List N) :
    Respects (AsDocuments (AgreeOn [sourceField, targetField])) (readEdge nodes) := by
  apply respects_document
  intro edge other agree
  have source : edge.requiredInt32 sourceField = other.requiredInt32 sourceField :=
    respects_requiredInt32 (by simp) agree
  have target : edge.requiredInt32 targetField = other.requiredInt32 targetField :=
    respects_requiredInt32 (by simp) agree
  simp only [source, target]

theorem codec_respects [DecidableEq N] {codec_of_node : Codec N} {node : Value → Value → Prop}
    (respects : Respects node codec_of_node.decode) :
    Respects (AsDocuments (FieldsAlike node)) (codec codec_of_node).decode := by
  apply respects_document
  refine respects_items (fun _ _ alike => alike.nodes) respects fun nodes => ?_
  exact respects_items (fun _ _ alike => alike.edges) (readEdge_respects nodes) fun _ => .const _ _

end Graph

theorem Structure.read_respects (id : StructureId) :
    Respects (AlikeAt elementsField (AsDocuments (Graph.FieldsAlike (AsDocuments Element.Alike))))
      (Structure.read id) := by
  have graph := Graph.codec_respects (Envelope.codec_respects Element.respects)
  intro d other alike
  have elements : d.decodeField elementsField (Graph.codec Element.envelope.codec) =
      other.decodeField elementsField (Graph.codec Element.envelope.codec) :=
    respects_required_alike graph alike
  rw [Structure.read, Structure.read, elements]

theorem Structure.respects : Respects Alike Structure.envelope.decodeDocument := by
  apply IdentifiedEnvelope.respects
  intro version reader known
  rcases SortedMap.get?_insert_eq_some known with ⟨rfl, rfl⟩ | older
  · exact ⟨_, by simp, Structure.read_respects⟩
  · cases older

namespace Computation

theorem readFirst_respects (id : ComputationId) : Respects (AgreeOn firstFields) (readFirst id) :=
  (respects_decodeField (by simp [firstFields]) _).bind fun _ =>
    (respects_decodeField (by simp [firstFields]) _).bind fun _ =>
      (respects_decodeField (by simp [firstFields]) _).bind fun _ => .const _ _

theorem readSecond_respects (id : ComputationId) :
    Respects (AgreeOn (statusField :: resultField :: firstFields)) (readSecond id) := by
  intro d other agree
  have text : d.requiredString statusField = other.requiredString statusField :=
    respects_requiredString (by simp) agree
  have status : Status.readField d = Status.readField other := by
    rw [Status.readField, Status.readField, text]
  have result : d.getOptional? resultField = other.getOptional? resultField :=
    congrArg (Option.filter _) (agree resultField (by simp))
  have asked : readFirst id d = readFirst id other :=
    readFirst_respects id (agree.subset (by simp))
  simp only [readSecond, status, result, asked]

theorem respects : Respects Alike Computation.envelope.decodeDocument := by
  apply IdentifiedEnvelope.respects
  intro version reader known
  rcases SortedMap.get?_insert_eq_some known with ⟨rfl, rfl⟩ | older
  · exact ⟨_, by simp, readSecond_respects⟩
  · rcases SortedMap.get?_insert_eq_some older with ⟨rfl, rfl⟩ | none
    · exact ⟨_, by simp, readFirst_respects⟩
    · cases none

/-- In a document of the first version, status and result can be anything. -/
theorem alike_of_first {d other : Document} (first : d.get? versionField = some (.int32 1))
    (elsewhere : ∀ field, field ≠ statusField → field ≠ resultField →
      d.get? field = other.get? field) : Alike d other := by
  have agree {fields : List String} (apart : statusField ∉ fields ∧ resultField ∉ fields) :
      AgreeOn fields d other := fun field member =>
    elsewhere field (fun same => apart.1 (same ▸ member)) fun same => apart.2 (same ▸ member)
  constructor
  · exact agree (by decide)
  · intro version related listed stamped
    rw [first] at stamped
    cases stamped
    rcases List.mem_cons.mp listed with same | later
    · cases same
      exact agree (by decide)
    · simp at later

theorem decodeDocument_set_first {d : Document} {c : Computation}
    (made : Computation.envelope.decodeDocument d = .ok c) :
    Computation.envelope.decodeDocument (d.set versionField (.int32 1)) =
      .ok { c with status := .new, result := none } := by
  obtain ⟨asked, -, ⟨text, timestamp, dated, read⟩, -⟩ := decodeDocument_asked made
  have elsewhere {field : String} (other : field ≠ versionField) :
      (d.set versionField (.int32 1)).get? field = d.get? field :=
    Document.get?_set_other _ _ other
  refine (decodeDocument_first (Document.requiredInt32_eq (Document.get?_set_same _ _ _))).mpr
    ⟨⟨?_, ?_, ?_, ?_⟩, ⟨text, timestamp, ?_, read⟩, rfl, rfl⟩
  · exact (elsewhere (by decide)).trans asked.id
  · exact (elsewhere (by decide)).trans asked.structureId
  · exact (elsewhere (by decide)).trans asked.elementName
  · exact (elsewhere (by decide)).trans asked.formula
  · exact Document.requiredString_eq
      ((elsewhere (by decide)).trans (Document.get?_of_requiredString dated))

end Computation

/-- Nothing that is read from a document depends on more than the fields that its kind and version
    name. A computation of the first version has no use for status or result, so a computation that
    is read at all is read as a new one when its document is given that version. -/
theorem decoding_depends_on_named_fields :
    (∀ d other, Definition.Alike d other →
      Definition.envelope.decodeDocument d = Definition.envelope.decodeDocument other) ∧
    (∀ d other, Element.Alike d other →
      Element.envelope.decodeDocument d = Element.envelope.decodeDocument other) ∧
    (∀ d other, Structure.Alike d other →
      Structure.envelope.decodeDocument d = Structure.envelope.decodeDocument other) ∧
    (∀ d other, Computation.Alike d other →
      Computation.envelope.decodeDocument d = Computation.envelope.decodeDocument other) ∧
    (∀ d other : Document, d.get? versionField = some (.int32 1) →
      (∀ field, field ≠ statusField → field ≠ resultField → d.get? field = other.get? field) →
        Computation.envelope.decodeDocument d = Computation.envelope.decodeDocument other) ∧
    ∀ (d : Document) (c : Computation), Computation.envelope.decodeDocument d = .ok c →
      Computation.envelope.decodeDocument (d.set versionField (.int32 1)) =
        .ok { c with status := .new, result := none } := by
  refine ⟨fun _ _ alike => Definition.respects alike, fun _ _ alike => Element.respects alike,
    fun _ _ alike => Structure.respects alike, fun _ _ alike => Computation.respects alike, ?_, ?_⟩
  · intro d other first elsewhere
    exact Computation.respects (Computation.alike_of_first first elsewhere)
  · intro d c made
    exact Computation.decodeDocument_set_first made

def tidyDefinition (text : String) : Document :=
  ⟨[(versionField, .int32 1), (nameField, .string "rate"), (valueField, .string text)]⟩

def tidyElement : Document :=
  ⟨[(versionField, .int32 1), ("color", .string "red"), (nameField, .string "pump"),
    (definitionsField, .array [(tidyDefinition "+12.50").toValue,
      (tidyDefinition "125e-1").toValue, (tidyDefinition "-0.0").toValue])]⟩

def tidyStructure : Document :=
  ⟨[(idField, .string "s-1"), (versionField, .int32 1),
    (dateField, .string "2023-11-14T23:13:20.5+01:00"),
    (elementsField, .document
      [(Graph.nodesField, .array [tidyElement.toValue, tidyElement.toValue]),
        (Graph.edgesField, .array [.document [("label", .null), (Graph.sourceField, .int32 0),
          (Graph.targetField, .int32 1)]])])]⟩

theorem tidyDefinition_alike (text : String) :
    Definition.Alike (untidyDefinition text) (tidyDefinition text) := by
  refine ⟨.cons rfl .nil, fun version related listed _ => ?_⟩
  cases List.mem_singleton.mp listed
  exact .cons rfl (.cons rfl .nil)

theorem tidyElement_alike : Element.Alike untidyElement tidyElement := by
  refine ⟨.cons rfl .nil, fun version related listed _ => ?_⟩
  cases List.mem_singleton.mp listed
  have each (text : String) := AsDocuments.documents (tidyDefinition_alike text)
  exact ⟨.some (.arrays (.cons (each _) (.cons (each _) (.cons (each _) .nil)))), .cons rfl .nil⟩

theorem tidyStructure_alike : Structure.Alike untidyStructure tidyStructure := by
  refine ⟨.cons rfl (.cons rfl (.cons rfl .nil)), fun version related listed _ => ?_⟩
  cases List.mem_singleton.mp listed
  have element := AsDocuments.documents tidyElement_alike
  have edge : AsDocuments (AgreeOn [Graph.sourceField, Graph.targetField])
      (.document [(Graph.targetField, .int32 1), (Graph.sourceField, .int32 0)])
      (.document [("label", .null), (Graph.sourceField, .int32 0),
        (Graph.targetField, .int32 1)]) :=
    .documents (.cons rfl (.cons rfl .nil))
  exact .some (.documents
    ⟨.some (.arrays (.cons element (.cons element .nil))), .some (.arrays (.cons edge .nil))⟩)

theorem sample_named_fields_decide :
    (Definition.Alike (untidyDefinition "+12.50") (tidyDefinition "+12.50") ∧
      Definition.envelope.decodeDocument (tidyDefinition "+12.50") =
        .ok ⟨⟨"rate"⟩, sampleDecimal⟩) ∧
    (Element.Alike untidyElement tidyElement ∧
      Element.envelope.decodeDocument tidyElement = .ok sampleElement) ∧
    (Structure.Alike untidyStructure tidyStructure ∧
      Structure.envelope.decodeDocument untidyStructure =
        Structure.envelope.decodeDocument tidyStructure) ∧
    (Computation.Alike firstComputation (firstComputation.set resultField (.bool true)) ∧
      Computation.envelope.decodeDocument firstComputation =
        Computation.envelope.decodeDocument (firstComputation.set resultField (.bool true)) ∧
      Computation.envelope.decodeDocument (firstComputation.set resultField (.bool true)) =
        .ok freshSample) ∧
    Computation.envelope.decodeDocument (sampleComputation.document 1700000000000000) =
      .ok sampleComputation ∧
    Computation.envelope.decodeDocument
        ((sampleComputation.document 1700000000000000).set versionField (.int32 1)) =
      .ok freshSample := by
  -- The documents of the structure differ at every level, those of the first computation in what
  -- has no meaning there, and the last one has both a status and a result.
  obtain ⟨definitions, elements, structures, computations, first, second⟩ :=
    decoding_depends_on_named_fields
  have definition_read : Definition.envelope.decodeDocument (untidyDefinition "+12.50") =
      .ok ⟨⟨"rate"⟩, sampleDecimal⟩ := rfl
  have element_read : Element.envelope.decodeDocument untidyElement = .ok sampleElement := rfl
  have versioned : firstComputation.get? versionField = some (.int32 1) := rfl
  have elsewhere : ∀ field, field ≠ statusField → field ≠ resultField →
      firstComputation.get? field = (firstComputation.set resultField (.bool true)).get? field :=
    fun _ _ other => (Document.get?_set_other _ _ other).symm
  have asked : freshSample.AskedIn firstComputation := ⟨rfl, rfl, rfl, rfl⟩
  have first_read : Computation.envelope.decodeDocument firstComputation = .ok freshSample :=
    (Computation.decodeDocument_first rfl).mpr ⟨asked, ⟨_, _, rfl, rfl⟩, rfl, rfl⟩
  have second_read : Computation.envelope.decodeDocument
      (sampleComputation.document 1700000000000000) = .ok sampleComputation := rfl
  have computation_alike := Computation.alike_of_first versioned elsewhere
  refine ⟨⟨tidyDefinition_alike _, ?_⟩, ⟨tidyElement_alike, ?_⟩, ⟨tidyStructure_alike, ?_⟩,
    ⟨computation_alike, ?_, ?_⟩, second_read, ?_⟩
  · exact (definitions _ _ (tidyDefinition_alike _)).symm.trans definition_read
  · exact (elements _ _ tidyElement_alike).symm.trans element_read
  · exact structures _ _ tidyStructure_alike
  · exact computations _ _ computation_alike
  · exact (first _ _ versioned elsewhere).symm.trans first_read
  · exact second _ _ second_read

end EntityCatalog
