import EntityCatalog.Proofs.Fields
import EntityCatalog.Proofs.Schema.Codec
import EntityCatalog.Proofs.SortedMap
import EntityCatalog.Proofs.Timestamp.Text
import EntityCatalog.Schema.Envelope

/- What an envelope reads from a document that carries a version: exactly what the reader of that
   version reads. With an identity and a written time of four-digit year, the header comes back. -/
namespace EntityCatalog
variable {α ι ρ : Type}

theorem Readers.select_eq {readers : Readers ρ} {version : Int32} {reader : ρ}
    (known : readers.get? version = some reader) (kind : Kind) :
    readers.select kind version = .ok reader := by
  unfold select
  rw [known]

namespace Envelope

theorem decodeDocument_eq {envelope : Envelope α} {d : Document} {version : Int32}
    {reader : Document → Except SchemaFault α}
    (stamped : d.get? versionField = some (.int32 version))
    (known : envelope.readers.get? version = some reader) :
    envelope.decodeDocument d = reader d := by
  unfold decodeDocument
  rw [Document.requiredInt32_eq stamped, ok_bind, Readers.select_eq known, ok_bind]

def Keeps (envelope : Envelope α) (item : α) : Prop :=
  ∃ d, envelope.encodeDocument item = .ok d ∧
    d.requiredInt32 versionField = .ok envelope.version ∧ envelope.decodeDocument d = .ok item

theorem codec_keeps {envelope : Envelope α} {item : α} (keeps : envelope.Keeps item) :
    envelope.codec.Keeps item := by
  obtain ⟨d, written, -, read⟩ := keeps
  refine ⟨d.toValue, ?_, read⟩
  unfold codec
  simp only [written]
  rfl

end Envelope

namespace IdentifiedEnvelope

def header (version : Int32) (id : Value) (writtenAt : Int) : Document :=
  ((Document.empty.set idField id).set versionField (.int32 version)).set dateField
    (.string (Timestamp.text ⟨writtenAt, 0⟩))

structure Stamped (d : Document) (version : Int32) (id : Value) (writtenAt : Int) : Prop where
  id : d.get? idField = some id
  version : d.get? versionField = some (.int32 version)
  date : d.get? dateField = some (.string (Timestamp.text ⟨writtenAt, 0⟩))

theorem header_stamped (version : Int32) (id : Value) (writtenAt : Int) :
    Stamped (header version id writtenAt) version id writtenAt := by
  constructor <;> simp [header, idField, versionField, dateField]

theorem Stamped.set {d : Document} {version : Int32} {id : Value} {writtenAt : Int}
    (stamped : Stamped d version id writtenAt) {name : String} (value : Value)
    (free : name ≠ idField ∧ name ≠ versionField ∧ name ≠ dateField) :
    Stamped (d.set name value) version id writtenAt := by
  obtain ⟨not_id, not_version, not_date⟩ := free
  constructor
  · rw [Document.get?_set_other d value (Ne.symm not_id)]
    exact stamped.id
  · rw [Document.get?_set_other d value (Ne.symm not_version)]
    exact stamped.version
  · rw [Document.get?_set_other d value (Ne.symm not_date)]
    exact stamped.date

theorem readHeader_eq {envelope : IdentifiedEnvelope α ι} {d : Document} {version : Int32}
    {value : Value} {id : ι} {writtenAt : Int} (stamped : Stamped d version value writtenAt)
    (known : envelope.idCodec.decode value = .ok id)
    (year : Timestamp.FourDigitYear writtenAt) :
    envelope.readHeader d = .ok ⟨id, version, writtenAt⟩ := by
  unfold readHeader
  rw [Document.required_eq stamped.id, Document.requiredInt32_eq stamped.version,
    Document.requiredString_eq stamped.date]
  simp only [ok_bind, known, Timestamp.writable_reads_back year.writable]
  rfl

theorem decodeDocument_eq {envelope : IdentifiedEnvelope α ι} {d : Document} {header : Header ι}
    {reader : ι → Document → Except SchemaFault α} (headed : envelope.readHeader d = .ok header)
    (known : envelope.readers.get? header.version = some reader) :
    envelope.decodeDocument d = reader header.id d := by
  unfold decodeDocument
  rw [headed, ok_bind, Readers.select_eq known, ok_bind]

def Keeps (envelope : IdentifiedEnvelope α ι) (item : α) (writtenAt : Int) : Prop :=
  ∃ d, envelope.encodeDocument item writtenAt = .ok d ∧
    envelope.readHeader d = .ok ⟨envelope.idOf item, envelope.version, writtenAt⟩ ∧
    envelope.decodeDocument d = .ok item

end IdentifiedEnvelope
end EntityCatalog
