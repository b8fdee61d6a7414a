import EntityCatalog.Catalog
import EntityCatalog.Proofs.Schema.Entities
import EntityCatalog.Proofs.Schema.Names
import EntityCatalog.Proofs.Store.Contents

/- What a catalog in memory holds, as entities. Each stored document reads as an entity that carries
   the id it is stored under; writing an entity sets it at its own id, and nothing else changes. -/
namespace EntityCatalog
variable {α κ : Type}

def withEntry [DecidableEq κ] (entries : κ → Option α) (key : κ) (content : Option α) :
    κ → Option α :=
  fun other => if other = key then content else entries other

def UnderOwnId (idOf : α → κ) (entries : κ → Option α) : Prop :=
  ∀ id, ∀ item ∈ entries id, idOf item = id

theorem withEntry_underOwnId [DecidableEq κ] {idOf : α → κ} {entries : κ → Option α}
    (own : UnderOwnId idOf entries) {key : κ} {content : Option α}
    (fits : ∀ item ∈ content, idOf item = key) :
    UnderOwnId idOf (withEntry entries key content) := by
  intro id item member
  unfold withEntry at member
  split at member
  · rename_i same
    rw [same]
    exact fits item member
  · exact own id item member

inductive Held (read : Document → Except SchemaFault α) : Option Document → Option α → Prop where
  | absent : Held read none none
  | present {d : Document} {item : α} (reads : read d = .ok item) : Held read (some d) (some item)

theorem Held.isSome_eq {read : Document → Except SchemaFault α} {stored : Option Document}
    {content : Option α} (held : Held read stored content) : stored.isSome = content.isSome := by
  cases held <;> rfl

theorem Held.readStored_eq {read : Document → Except SchemaFault α} {stored : Option Document}
    {content : Option α} (held : Held read stored content) :
    Catalog.readStored read (.ok stored) = .ok content := by
  cases held with
  | absent => rfl
  | present reads =>
    simp only [Catalog.readStored, reads]
    rfl

/-- A collection holds the entries if the document under each id reads as the entry of that id. -/
def Shelf.Holds (shelf : Shelf) (collection : String) (text : κ → String)
    (read : Document → Except SchemaFault α) (entries : κ → Option α) : Prop :=
  ∀ id, Held read (shelf collection (text id)) (entries id)

namespace Shelf.Holds
variable {shelf : Shelf} {collection : String} {text : κ → String}
  {read : Document → Except SchemaFault α} {entries : κ → Option α}

theorem set [DecidableEq κ] (holds : shelf.Holds collection text read entries)
    (texts_differ : ∀ id other, text id = text other → id = other) {key : κ}
    {document : Option Document} {content : Option α} (held : Held read document content) :
    (shelf.set collection (text key) document).Holds collection text read
      (withEntry entries key content) := by
  intro id
  simp only [Shelf.set, withEntry, true_and]
  by_cases same : id = key
  · rw [if_pos (congrArg text same), if_pos same]
    exact held
  · rw [if_neg (fun texts => same (texts_differ id key texts)), if_neg same]
    exact holds id

theorem set_elsewhere (holds : shelf.Holds collection text read entries) {other : String}
    (apart : collection ≠ other) (id : String) (document : Option Document) :
    (shelf.set other id document).Holds collection text read entries := by
  intro key
  rw [Shelf.set, if_neg (fun both => apart both.1)]
  exact holds key

end Shelf.Holds

theorem StructureId.text_inj (id other : StructureId) (texts : id.text = other.text) :
    id = other := by
  cases id
  cases other
  exact congrArg mk texts

theorem ComputationId.text_inj (id other : ComputationId) (texts : id.text = other.text) :
    id = other := by
  cases id
  cases other
  exact congrArg mk texts

structure Ledger where
  structures : StructureId → Option Structure
  computations : ComputationId → Option Computation

namespace Ledger

def empty : Ledger := ⟨fun _ => none, fun _ => none⟩

def setStructure (ledger : Ledger) (id : StructureId) (content : Option Structure) : Ledger :=
  { ledger with structures := withEntry ledger.structures id content }

def setComputation (ledger : Ledger) (id : ComputationId) (content : Option Computation) : Ledger :=
  { ledger with computations := withEntry ledger.computations id content }

structure StoredOn (ledger : Ledger) (shelf : Shelf) : Prop where
  structures : shelf.Holds structureCollection StructureId.text
    Structure.envelope.decodeDocument ledger.structures
  computations : shelf.Holds computationCollection ComputationId.text
    Computation.envelope.decodeDocument ledger.computations
  structure_ids : UnderOwnId Structure.id ledger.structures
  computation_ids : UnderOwnId Computation.id ledger.computations

theorem empty_storedOn : empty.StoredOn fun _ _ => none where
  structures _ := .absent
  computations _ := .absent
  structure_ids _ _ stored := by cases stored
  computation_ids _ _ stored := by cases stored

theorem setStructure_storedOn {ledger : Ledger} {shelf : Shelf} (stored : ledger.StoredOn shelf)
    {id : StructureId} {document : Option Document} {content : Option Structure}
    (held : Held Structure.envelope.decodeDocument document content)
    (own : ∀ s ∈ content, s.id = id) :
    (ledger.setStructure id content).StoredOn
      (shelf.set structureCollection id.text document) where
  structures := stored.structures.set StructureId.text_inj held
  computations := stored.computations.set_elsewhere (by decide) _ _
  structure_ids := withEntry_underOwnId stored.structure_ids own
  computation_ids := stored.computation_ids

theorem setComputation_storedOn {ledger : Ledger} {shelf : Shelf} (stored : ledger.StoredOn shelf)
    {id : ComputationId} {document : Option Document} {content : Option Computation}
    (held : Held Computation.envelope.decodeDocument document content)
    (own : ∀ c ∈ content, c.id = id) :
    (ledger.setComputation id content).StoredOn
      (shelf.set computationCollection id.text document) where
  structures := stored.structures.set_elsewhere (by decide) _ _
  computations := stored.computations.set ComputationId.text_inj held
  structure_ids := stored.structure_ids
  computation_ids := withEntry_underOwnId stored.computation_ids own

end Ledger

theorem Structure.small_of_encodeDocument {s : Structure} {writtenAt : Int} {d : Document}
    (written : Structure.envelope.encodeDocument s writtenAt = .ok d) :
    s.elements.nodeCount ≤ maxPosition := by
  obtain ⟨id, -, written⟩ := bind_eq_ok.mp written
  obtain ⟨elements, encoded, -⟩ := bind_eq_ok.mp written
  apply Nat.le_of_not_lt
  intro large
  unfold Graph.codec at encoded
  simp only [if_pos large] at encoded
  cases encoded

theorem Structure.stamped_of_encodeDocument {s : Structure} {writtenAt : Int} {d : Document}
    (written : Structure.envelope.encodeDocument s writtenAt = .ok d) :
    IdentifiedEnvelope.Stamped d 1 (.string s.id.text) writtenAt := by
  obtain ⟨id, same, written⟩ := bind_eq_ok.mp written
  obtain ⟨elements, -, written⟩ := bind_eq_ok.mp written
  cases same
  cases written
  exact (IdentifiedEnvelope.header_stamped _ _ _).set elements (by decide)

theorem Computation.stamped_of_encodeDocument {c : Computation} {writtenAt : Int} {d : Document}
    (written : Computation.envelope.encodeDocument c writtenAt = .ok d) :
    IdentifiedEnvelope.Stamped d 2 (.string c.id.text) writtenAt := by
  rw [Computation.encodeDocument_eq] at written
  cases written
  exact c.document_stamped writtenAt

theorem Structure.decodeDocument_of_encodeDocument {s : Structure} (readable : s.Readable)
    {writtenAt : Int} (year : Timestamp.FourDigitYear writtenAt) {d : Document}
    (written : Structure.envelope.encodeDocument s writtenAt = .ok d) :
    Structure.envelope.decodeDocument d = .ok s := by
  obtain ⟨same, made, -, reads⟩ :=
    Structure.envelope_keeps readable (Structure.small_of_encodeDocument written) year
  rw [written] at made
  cases made
  exact reads

theorem Computation.decodeDocument_of_encodeDocument {c : Computation} (readable : c.Readable)
    {writtenAt : Int} (year : Timestamp.FourDigitYear writtenAt) {d : Document}
    (written : Computation.envelope.encodeDocument c writtenAt = .ok d) :
    Computation.envelope.decodeDocument d = .ok c := by
  obtain ⟨same, made, -, reads⟩ := Computation.envelope_keeps readable year
  rw [written] at made
  cases made
  exact reads

end EntityCatalog
