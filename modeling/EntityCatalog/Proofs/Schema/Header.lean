import EntityCatalog.Proofs.Schema.Entities

/- The header of a written document. The identity and the version are found again whatever the clock
   showed. The time is found again if its year has four digits; a document of any other time is
   written all the same, and then it is refused because of its own header. -/
namespace EntityCatalog
variable {α ι : Type}

namespace IdentifiedEnvelope

/-- Writing the fields of an item leaves those of the header as they are. -/
def LeavesHeader (envelope : IdentifiedEnvelope α ι) : Prop :=
  ∀ item d written, envelope.writeFields item d = .ok written →
    ∀ field ∈ [idField, versionField, dateField], written.get? field = d.get? field

theorem encodeDocument_stamped {envelope : IdentifiedEnvelope α ι}
    (leaves : envelope.LeavesHeader) {item : α} {writtenAt : Int} {d : Document}
    (written : envelope.encodeDocument item writtenAt = .ok d) :
    ∃ value, envelope.idCodec.encode (envelope.idOf item) = .ok value ∧
      Stamped d envelope.version value writtenAt := by
  obtain ⟨value, id, filled⟩ := bind_eq_ok.mp written
  have kept := leaves item _ d filled
  have stamped := header_stamped envelope.version value writtenAt
  refine ⟨value, id, ?_⟩
  constructor
  · exact (kept idField (by simp)).trans stamped.id
  · exact (kept versionField (by simp)).trans stamped.version
  · exact (kept dateField (by simp)).trans stamped.date

theorem readHeader_stamped {envelope : IdentifiedEnvelope α ι} {d : Document} {version : Int32}
    {value : Value} {id : ι} {writtenAt : Int} (stamped : Stamped d version value writtenAt)
    (known : envelope.idCodec.decode value = .ok id) :
    envelope.readHeader d =
      if Timestamp.FourDigitYear writtenAt then .ok ⟨id, version, writtenAt⟩
      else .error (.invalidTimestamp dateField (Timestamp.text ⟨writtenAt, 0⟩)) := by
  split
  · rename_i year
    exact readHeader_eq stamped known year
  · rename_i year
    unfold readHeader
    rw [Document.required_eq stamped.id, Document.requiredInt32_eq stamped.version,
      Document.requiredString_eq stamped.date]
    simp only [ok_bind, known, Timestamp.universal_reads_back, if_neg year]
    rfl

theorem decodeDocument_of_readHeader (envelope : IdentifiedEnvelope α ι) (d : Document) :
    envelope.decodeDocument d =
      envelope.readHeader d >>= fun header =>
        envelope.readers.select envelope.kind header.version >>= fun reader =>
          reader header.id d := by
  rfl

/-- What is read of the header of a written document, and of the document for it. -/
theorem written_header_reads_back (envelope : IdentifiedEnvelope α ι)
    (ids : envelope.idCodec.Faithful) (leaves : envelope.LeavesHeader) (item : α)
    (writtenAt : Int) (d : Document) (written : envelope.encodeDocument item writtenAt = .ok d) :
    envelope.readHeader d =
        (if Timestamp.FourDigitYear writtenAt then
          .ok ⟨envelope.idOf item, envelope.version, writtenAt⟩
        else .error (.invalidTimestamp dateField (Timestamp.text ⟨writtenAt, 0⟩))) ∧
      envelope.decodeDocument d =
        if Timestamp.FourDigitYear writtenAt then
          (envelope.readers.select envelope.kind envelope.version).bind fun reader =>
            reader (envelope.idOf item) d
        else .error (.invalidTimestamp dateField (Timestamp.text ⟨writtenAt, 0⟩)) := by
  obtain ⟨value, id, stamped⟩ := encodeDocument_stamped leaves written
  have header := readHeader_stamped stamped (ids _ _ id)
  refine ⟨header, ?_⟩
  rw [decodeDocument_of_readHeader, header]
  split <;> rfl

end IdentifiedEnvelope

theorem textCodec_faithful (field : String) {wrap : String → α} {unwrap : α → String}
    (same : ∀ item, wrap (unwrap item) = item) : (textCodec field wrap unwrap).Faithful := by
  intro item value written
  cases written
  exact congrArg Except.ok (same item)

theorem Computation.envelope_leavesHeader : Computation.envelope.LeavesHeader := by
  intro c d written write field member
  change Computation.write c d = .ok written at write
  have apart : field ≠ structureIdField ∧ field ≠ elementNameField ∧ field ≠ expressionField ∧
      field ≠ statusField ∧ field ≠ resultField := by
    revert field
    decide
  unfold Computation.write at write
  cases result : c.result with
  | none =>
    rw [result] at write
    cases write
    simp only [Document.get?_set_other, apart, ne_eq, not_false_eq_true]
  | some value =>
    rw [result] at write
    cases write
    simp only [Document.get?_set_other, apart, ne_eq, not_false_eq_true]

namespace IdentifiedEnvelope

theorem sample_header_reads_back :
    (computationIdCodec idField).Faithful ∧ Computation.envelope.LeavesHeader ∧
      ∃ now last,
        Computation.envelope.encodeDocument sampleComputation 1700000000000000 = .ok now ∧
        Computation.envelope.readHeader now = .ok ⟨⟨"c-1"⟩, 2, 1700000000000000⟩ ∧
        Computation.envelope.encodeDocument sampleComputation 9223372036854775807 = .ok last ∧
        Computation.envelope.readHeader last =
          .error (.invalidTimestamp dateField "294247-01-10T04:00:54.775807Z") := by
  have ids : (computationIdCodec idField).Faithful := textCodec_faithful idField fun _ => rfl
  have leaves := Computation.envelope_leavesHeader
  obtain ⟨now, written_now⟩ :
      ∃ d, Computation.envelope.encodeDocument sampleComputation 1700000000000000 = .ok d :=
    ⟨_, rfl⟩
  obtain ⟨last, written_last⟩ :
      ∃ d, Computation.envelope.encodeDocument sampleComputation 9223372036854775807 = .ok d :=
    ⟨_, rfl⟩
  have header_now := (written_header_reads_back _ ids leaves _ _ _ written_now).1
  have header_last := (written_header_reads_back _ ids leaves _ _ _ written_last).1
  rw [if_pos (by decide)] at header_now
  rw [if_neg (by decide)] at header_last
  refine ⟨ids, leaves, now, last, written_now, header_now, written_last, ?_⟩
  rw [header_last]
  rfl

theorem unwritable_years_refused :
    (∃ d, Computation.envelope.encodeDocument sampleComputation 253402300800000000 = .ok d ∧
      Computation.envelope.readHeader d =
        .error (.invalidTimestamp dateField "10000-01-01T00:00:00Z") ∧
      Computation.envelope.decodeDocument d =
        .error (.invalidTimestamp dateField "10000-01-01T00:00:00Z")) ∧
    ∃ d, Computation.envelope.encodeDocument sampleComputation (-62167219200000001) = .ok d ∧
      Computation.envelope.readHeader d =
        .error (.invalidTimestamp dateField "-001-12-31T23:59:59.999999Z") ∧
      Computation.envelope.decodeDocument d =
        .error (.invalidTimestamp dateField "-001-12-31T23:59:59.999999Z") := by
  exact ⟨⟨_, rfl, rfl, rfl⟩, ⟨_, rfl, rfl, rfl⟩⟩

end IdentifiedEnvelope
end EntityCatalog
