import EntityCatalog.Schema.Codec
import EntityCatalog.SortedMap
import EntityCatalog.Timestamp

/- Versioned envelopes. A stored entity carries the schema version it was written with; it is
   written in the current version and read by the reader of its own version, and by no other. An
   entity with an identity also carries that identity and the time of writing. -/
namespace EntityCatalog
variable {α ι : Type}

def idField : String := "_id"
def versionField : String := "_version"
def dateField : String := "_date"

abbrev Readers (ρ : Type) := SortedMap Int32 ρ compare

structure Envelope (α : Type) where
  kind : Kind
  version : Int32
  writeFields : α → Document → Except GraphTooLarge Document
  readers : Readers (Document → Except SchemaFault α)

def Readers.select {ρ : Type} (readers : Readers ρ) (kind : Kind) (version : Int32) :
    Except SchemaFault ρ :=
  match readers.get? version with
  | some reader => .ok reader
  | none => .error (.unsupportedVersion kind version)

namespace Envelope

def writing (kind : Kind) (version : Int32)
    (writeFields : α → Document → Except GraphTooLarge Document) : Envelope α :=
  ⟨kind, version, writeFields, .empty⟩

/-- A reader given later for the same version takes the place of the earlier one. -/
def reading (envelope : Envelope α) (version : Int32)
    (reader : Document → Except SchemaFault α) : Envelope α :=
  { envelope with readers := envelope.readers.insert version reader }

def supportedVersions (envelope : Envelope α) : List Int32 := envelope.readers.keys

def encodeDocument (envelope : Envelope α) (item : α) : Except GraphTooLarge Document :=
  envelope.writeFields item (Document.empty.set versionField (.int32 envelope.version))

def decodeDocument (envelope : Envelope α) (d : Document) : Except SchemaFault α := do
  let version ← d.requiredInt32 versionField
  let reader ← envelope.readers.select envelope.kind version
  reader d

def codec (envelope : Envelope α) : Codec α where
  encode item := (envelope.encodeDocument item).map Document.toValue
  decode value :=
    (Document.expect "envelope" "document" Value.document? value).bind envelope.decodeDocument

end Envelope

structure IdentifiedEnvelope (α ι : Type) where
  kind : Kind
  version : Int32
  idOf : α → ι
  idCodec : Codec ι
  writeFields : α → Document → Except GraphTooLarge Document
  readers : Readers (ι → Document → Except SchemaFault α)

/-- What an envelope says about the entity in it. The time is in microseconds since 1970. -/
structure Header (ι : Type) where
  id : ι
  version : Int32
  writtenAt : Int
  deriving DecidableEq

namespace IdentifiedEnvelope

def writing (kind : Kind) (version : Int32) (idOf : α → ι) (idCodec : Codec ι)
    (writeFields : α → Document → Except GraphTooLarge Document) : IdentifiedEnvelope α ι :=
  ⟨kind, version, idOf, idCodec, writeFields, .empty⟩

def reading (envelope : IdentifiedEnvelope α ι) (version : Int32)
    (reader : ι → Document → Except SchemaFault α) : IdentifiedEnvelope α ι :=
  { envelope with readers := envelope.readers.insert version reader }

def supportedVersions (envelope : IdentifiedEnvelope α ι) : List Int32 := envelope.readers.keys

def encodeDocument (envelope : IdentifiedEnvelope α ι) (item : α) (writtenAt : Int) :
    Except GraphTooLarge Document := do
  let id ← envelope.idCodec.encode (envelope.idOf item)
  let header := ((Document.empty.set idField id).set versionField (.int32 envelope.version)).set
    dateField (.string (Timestamp.text ⟨writtenAt, 0⟩))
  envelope.writeFields item header

/-- The offset of the stored time is not kept. -/
def readHeader (envelope : IdentifiedEnvelope α ι) (d : Document) :
    Except SchemaFault (Header ι) := do
  let id ← envelope.idCodec.decode (← d.required idField)
  let version ← d.requiredInt32 versionField
  let date ← d.requiredString dateField
  match Timestamp.read date with
  | .ok timestamp => return ⟨id, version, timestamp.micros⟩
  | .error _ => throw (.invalidTimestamp dateField date)

def decodeDocument (envelope : IdentifiedEnvelope α ι) (d : Document) :
    Except SchemaFault α := do
  let header ← envelope.readHeader d
  let reader ← envelope.readers.select envelope.kind header.version
  reader header.id d

def codec (envelope : IdentifiedEnvelope α ι) (writtenAt : Int) : Codec α where
  encode item := (envelope.encodeDocument item writtenAt).map Document.toValue
  decode value :=
    (Document.expect "envelope" "document" Value.document? value).bind envelope.decodeDocument

end IdentifiedEnvelope
end EntityCatalog
