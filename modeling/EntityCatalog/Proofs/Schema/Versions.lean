import EntityCatalog.Proofs.Schema.Header
import EntityCatalog.Proofs.Schema.Resave

/- Which reader a document comes to. An envelope is given its readers one after the other, for any
   versions and in any order. A document goes to the reader that was given last for its version and
   to no other, and one whose header cannot be read goes to none. -/
namespace EntityCatalog
variable {α ι ρ : Type}

/-- The reader that was given last for a version. -/
def latest? (given : List (Int32 × ρ)) (version : Int32) : Option ρ :=
  (given.reverse.find? fun entry => entry.1 = version).map Prod.snd

theorem latest?_cons (entry : Int32 × ρ) (rest : List (Int32 × ρ)) (version : Int32) :
    latest? (entry :: rest) version =
      (latest? rest version).or (if version = entry.1 then some entry.2 else none) := by
  have first : (List.find? (fun entry : Int32 × ρ => decide (entry.1 = version)) [entry]).map
      Prod.snd = if version = entry.1 then some entry.2 else none := by
    by_cases same : version = entry.1
    · simp [same]
    · simp [same, Ne.symm same]
  rw [latest?, List.reverse_cons, List.find?_append, Option.map_or, first]
  rfl

theorem latest?_eq_none {given : List (Int32 × ρ)} {version : Int32} :
    latest? given version = none ↔ ∀ reader, (version, reader) ∉ given := by
  simp only [latest?, Option.map_eq_none_iff, List.find?_eq_none, List.mem_reverse,
    decide_eq_true_eq]
  constructor
  · intro none reader member
    exact none _ member rfl
  · intro none entry member same
    exact none entry.2 (same ▸ member)

theorem exists_latest? {given : List (Int32 × ρ)} {version : Int32} :
    (∃ reader, latest? given version = some reader) ↔ ∃ reader, (version, reader) ∈ given := by
  rw [← Option.isSome_iff_exists, ← Option.ne_none_iff_isSome, ne_eq, latest?_eq_none]
  simp

namespace Readers

def ofGiven (given : List (Int32 × ρ)) : Readers ρ :=
  given.foldl (fun readers entry => readers.insert entry.1 entry.2) .empty

theorem get?_insertAll (readers : Readers ρ) (given : List (Int32 × ρ)) (version : Int32) :
    (given.foldl (fun readers entry => readers.insert entry.1 entry.2) readers).get? version =
      (latest? given version).or (readers.get? version) := by
  induction given generalizing readers with
  | nil => rfl
  | cons entry rest ih =>
    have later := ih (readers.insert entry.1 entry.2)
    rw [SortedMap.get?_insert] at later
    rw [latest?_cons, Option.or_assoc]
    refine later.trans (congrArg _ ?_)
    split <;> rfl

theorem get?_ofGiven (given : List (Int32 × ρ)) (version : Int32) :
    (ofGiven given).get? version = latest? given version :=
  (get?_insertAll .empty given version).trans Option.or_none

theorem mem_keys_ofGiven {given : List (Int32 × ρ)} {version : Int32} :
    version ∈ (ofGiven given).keys ↔ ∃ reader, (version, reader) ∈ given := by
  simp only [SortedMap.mem_keys_iff, get?_ofGiven]
  exact exists_latest?

theorem keys_increasing (readers : Readers ρ) : readers.keys.Pairwise (· < ·) :=
  readers.keys_ascending.imp Std.compare_eq_lt.mp

theorem select_unknown {readers : Readers ρ} {version : Int32}
    (unknown : readers.get? version = none) (kind : Kind) :
    readers.select kind version = .error (.unsupportedVersion kind version) := by
  unfold select
  rw [unknown]

end Readers

inductive FieldFault (d : Document) (field expected : String) (view : Value → Option α) :
    SchemaFault → Prop where
  | missing (absent : d.get? field = none) : FieldFault d field expected view (.missingField field)
  | mistyped {value : Value} (here : d.get? field = some value) (other : view value = none) :
      FieldFault d field expected view (.mistyped field expected value.typeName)

theorem Document.required_eq_error {d : Document} {field : String} {fault : SchemaFault} :
    d.required field = .error fault ↔ d.get? field = none ∧ fault = .missingField field := by
  unfold required
  cases d.get? field <;> simp [eq_comm]

theorem fieldFault_iff {d : Document} {field expected : String} {view : Value → Option α}
    {fault : SchemaFault} :
    (d.required field).bind (Document.expect field expected view) = .error fault ↔
      FieldFault d field expected view fault := by
  constructor
  · intro refused
    rcases bind_eq_error.mp refused with missing | ⟨value, found, other⟩
    · obtain ⟨absent, rfl⟩ := Document.required_eq_error.mp missing
      exact .missing absent
    · unfold Document.expect at other
      split at other
      · cases other
      · rename_i unseen
        cases other
        exact .mistyped (Document.get?_of_required found) unseen
  · intro wrong
    cases wrong with
    | missing absent =>
      rw [Document.required_eq_error.mpr ⟨absent, rfl⟩]
      rfl
    | mistyped here other =>
      rw [Document.required_eq here]
      change Document.expect field expected view _ = _
      rw [Document.expect, other]

namespace Envelope

def readingAll (envelope : Envelope α)
    (given : List (Int32 × (Document → Except SchemaFault α))) : Envelope α :=
  given.foldl (fun envelope entry => envelope.reading entry.1 entry.2) envelope

theorem readingAll_eq (envelope : Envelope α)
    (given : List (Int32 × (Document → Except SchemaFault α))) :
    envelope.readingAll given =
      { envelope with
        readers := given.foldl (fun readers entry => readers.insert entry.1 entry.2)
          envelope.readers } := by
  induction given generalizing envelope with
  | nil => rfl
  | cons entry rest ih => exact ih (envelope.reading entry.1 entry.2)

def Reaches (envelope : Envelope α) (d : Document) (reader : Document → Except SchemaFault α) :
    Prop :=
  ∃ version, d.get? versionField = some (.int32 version) ∧
    envelope.readers.get? version = some reader

def LeavesVersion (envelope : Envelope α) : Prop :=
  ∀ item d written, envelope.writeFields item d = .ok written →
    written.get? versionField = d.get? versionField

/-- What becomes of every document under an envelope whose readers were given in this order. -/
structure Dispatches (envelope : Envelope α)
    (given : List (Int32 × (Document → Except SchemaFault α))) : Prop where
  latest : ∀ d version, d.get? versionField = some (.int32 version) →
    ∀ reader, latest? given version = some reader →
      envelope.Reaches d reader ∧ envelope.decodeDocument d = reader d
  unsupported : ∀ d version, d.get? versionField = some (.int32 version) →
    (∀ reader, (version, reader) ∉ given) →
      (∀ reader, ¬ envelope.Reaches d reader) ∧
        envelope.decodeDocument d = .error (.unsupportedVersion envelope.kind version)
  unheaded : ∀ d fault, FieldFault d versionField "int32" Value.int32? fault →
    (∀ reader, ¬ envelope.Reaches d reader) ∧ envelope.decodeDocument d = .error fault
  headed_or_fault : ∀ d, (∃ version, d.get? versionField = some (.int32 version)) ∨
    ∃ fault, FieldFault d versionField "int32" Value.int32? fault
  increasing : envelope.supportedVersions.Pairwise (· < ·)
  supported : ∀ version,
    version ∈ envelope.supportedVersions ↔ ∃ reader, (version, reader) ∈ given
  written : envelope.LeavesVersion → ∀ item d, envelope.encodeDocument item = .ok d →
    ((∃ reader, envelope.Reaches d reader) ↔ ∃ reader, (envelope.version, reader) ∈ given)

theorem reaches_iff {envelope : Envelope α} {d : Document} {version : Int32}
    (stamped : d.get? versionField = some (.int32 version))
    {reader : Document → Except SchemaFault α} :
    envelope.Reaches d reader ↔ envelope.readers.get? version = some reader := by
  constructor
  · rintro ⟨other, here, known⟩
    rw [stamped] at here
    cases here
    exact known
  · intro known
    exact ⟨version, stamped, known⟩

theorem decodeDocument_of_version (envelope : Envelope α) (d : Document) :
    envelope.decodeDocument d =
      d.requiredInt32 versionField >>= fun version =>
        envelope.readers.select envelope.kind version >>= fun reader => reader d := by
  rfl

theorem dispatches_of_readers {envelope : Envelope α}
    {given : List (Int32 × (Document → Except SchemaFault α))}
    (readers : envelope.readers = Readers.ofGiven given) : envelope.Dispatches given := by
  have found (version : Int32) : envelope.readers.get? version = latest? given version := by
    rw [readers, Readers.get?_ofGiven]
  constructor
  · intro d version stamped reader last
    have known := (found version).trans last
    exact ⟨(reaches_iff stamped).mpr known, decodeDocument_eq stamped known⟩
  · intro d version stamped absent
    have unknown := (found version).trans (latest?_eq_none.mpr absent)
    constructor
    · intro reader reached
      rw [(reaches_iff stamped).mp reached] at unknown
      cases unknown
    · rw [decodeDocument_of_version, Document.requiredInt32_eq stamped, ok_bind,
        Readers.select_unknown unknown, error_bind]
  · intro d fault wrong
    have refused : d.requiredInt32 versionField = .error fault := fieldFault_iff.mpr wrong
    constructor
    · rintro reader ⟨version, stamped, -⟩
      rw [Document.requiredInt32_eq stamped] at refused
      cases refused
    · rw [decodeDocument_of_version, refused]
      rfl
  · intro d
    cases read : d.requiredInt32 versionField with
    | ok version => exact Or.inl ⟨version, Document.get?_of_requiredInt32 read⟩
    | error fault => exact Or.inr ⟨fault, fieldFault_iff.mp read⟩
  · exact envelope.readers.keys_increasing
  · intro version
    rw [supportedVersions, readers]
    exact Readers.mem_keys_ofGiven
  · intro leaves item d written
    have stamped : d.get? versionField = some (.int32 envelope.version) :=
      (leaves item _ d written).trans (Document.get?_set_same _ _ _)
    simp only [reaches_iff stamped, found]
    exact exists_latest?

end Envelope

namespace IdentifiedEnvelope

def readingAll (envelope : IdentifiedEnvelope α ι)
    (given : List (Int32 × (ι → Document → Except SchemaFault α))) : IdentifiedEnvelope α ι :=
  given.foldl (fun envelope entry => envelope.reading entry.1 entry.2) envelope

theorem readingAll_eq (envelope : IdentifiedEnvelope α ι)
    (given : List (Int32 × (ι → Document → Except SchemaFault α))) :
    envelope.readingAll given =
      { envelope with
        readers := given.foldl (fun readers entry => readers.insert entry.1 entry.2)
          envelope.readers } := by
  induction given generalizing envelope with
  | nil => rfl
  | cons entry rest ih => exact ih (envelope.reading entry.1 entry.2)

/-- The document is handed to the reader, together with the identity in its header. -/
def Reaches (envelope : IdentifiedEnvelope α ι) (d : Document) (id : ι)
    (reader : ι → Document → Except SchemaFault α) : Prop :=
  ∃ header, Headed envelope.idCodec d header ∧ header.id = id ∧
    envelope.readers.get? header.version = some reader

/-- What is wrong with a header: the first of its fields, in the order in which they are read, that
    is missing or cannot be read. -/
inductive HeaderFault (ids : Codec ι) (d : Document) : SchemaFault → Prop where
  | noId (absent : d.get? idField = none) : HeaderFault ids d (.missingField idField)
  | id {value : Value} {fault : SchemaFault} (here : d.get? idField = some value)
      (wrong : ids.decode value = .error fault) : HeaderFault ids d fault
  | version {value : Value} {id : ι} {fault : SchemaFault} (here : d.get? idField = some value)
      (known : ids.decode value = .ok id)
      (wrong : FieldFault d versionField "int32" Value.int32? fault) : HeaderFault ids d fault
  | date {value : Value} {id : ι} {version : Int32} {fault : SchemaFault}
      (here : d.get? idField = some value) (known : ids.decode value = .ok id)
      (stamped : d.get? versionField = some (.int32 version))
      (wrong : FieldFault d dateField "string" Value.string? fault) : HeaderFault ids d fault
  | time {value : Value} {id : ι} {version : Int32} {text : String}
      (here : d.get? idField = some value) (known : ids.decode value = .ok id)
      (stamped : d.get? versionField = some (.int32 version))
      (dated : d.get? dateField = some (.string text))
      (wrong : ∀ timestamp, Timestamp.read text ≠ .ok timestamp) :
      HeaderFault ids d (.invalidTimestamp dateField text)

/-- A header that cannot be read has one of these faults, and each of them is reported. -/
theorem headerFault_iff {envelope : IdentifiedEnvelope α ι} {d : Document} {fault : SchemaFault} :
    envelope.readHeader d = .error fault ↔ HeaderFault envelope.idCodec d fault := by
  constructor
  · intro refused
    rcases bind_eq_error.mp refused with missing | ⟨value, found, refused⟩
    · obtain ⟨absent, rfl⟩ := Document.required_eq_error.mp missing
      exact .noId absent
    have here := Document.get?_of_required found
    rcases bind_eq_error.mp refused with wrong | ⟨id, known, refused⟩
    · exact .id here wrong
    rcases bind_eq_error.mp refused with wrong | ⟨version, stamped, refused⟩
    · exact .version here known (fieldFault_iff.mp wrong)
    have stamped := Document.get?_of_requiredInt32 stamped
    rcases bind_eq_error.mp refused with wrong | ⟨text, dated, refused⟩
    · exact .date here known stamped (fieldFault_iff.mp wrong)
    have dated := Document.get?_of_requiredString dated
    split at refused
    · cases refused
    · rename_i unread
      cases refused
      refine .time here known stamped dated fun timestamp read => ?_
      rw [read] at unread
      cases unread
  · intro wrong
    unfold readHeader
    cases wrong with
    | noId absent =>
      rw [Document.required_eq_error.mpr ⟨absent, rfl⟩]
      rfl
    | id here wrong =>
      rw [Document.required_eq here]
      simp only [ok_bind, wrong, error_bind]
    | version here known wrong =>
      have refused : d.requiredInt32 versionField = .error fault := fieldFault_iff.mpr wrong
      rw [Document.required_eq here]
      simp only [ok_bind, known, refused, error_bind]
    | date here known stamped wrong =>
      have refused : d.requiredString dateField = .error fault := fieldFault_iff.mpr wrong
      rw [Document.required_eq here]
      simp only [ok_bind, known, Document.requiredInt32_eq stamped, refused, error_bind]
    | time here known stamped dated wrong =>
      rw [Document.required_eq here]
      simp only [ok_bind, known, Document.requiredInt32_eq stamped,
        Document.requiredString_eq dated]
      split
      · rename_i timestamp read
        exact absurd read (wrong timestamp)
      · rfl

structure Dispatches (envelope : IdentifiedEnvelope α ι)
    (given : List (Int32 × (ι → Document → Except SchemaFault α))) : Prop where
  headers : ∀ d header, envelope.readHeader d = .ok header ↔ Headed envelope.idCodec d header
  latest : ∀ d header version, Headed envelope.idCodec d header →
    d.get? versionField = some (.int32 version) →
    ∀ reader, latest? given version = some reader →
      envelope.Reaches d header.id reader ∧ envelope.decodeDocument d = reader header.id d
  unsupported : ∀ d header version, Headed envelope.idCodec d header →
    d.get? versionField = some (.int32 version) → (∀ reader, (version, reader) ∉ given) →
      (∀ id reader, ¬ envelope.Reaches d id reader) ∧
        envelope.decodeDocument d = .error (.unsupportedVersion envelope.kind version)
  unheaded : ∀ d fault, HeaderFault envelope.idCodec d fault →
    (∀ id reader, ¬ envelope.Reaches d id reader) ∧ envelope.decodeDocument d = .error fault
  headed_or_fault : ∀ d, (∃ header, Headed envelope.idCodec d header) ∨
    ∃ fault, HeaderFault envelope.idCodec d fault
  increasing : envelope.supportedVersions.Pairwise (· < ·)
  supported : ∀ version,
    version ∈ envelope.supportedVersions ↔ ∃ reader, (version, reader) ∈ given
  written : envelope.LeavesHeader → ∀ item writtenAt d,
    envelope.encodeDocument item writtenAt = .ok d →
      d.get? versionField = some (.int32 envelope.version) ∧
        ∀ header, Headed envelope.idCodec d header →
          ((∃ id reader, envelope.Reaches d id reader) ↔
            ∃ reader, (envelope.version, reader) ∈ given)
  readable : envelope.LeavesHeader → envelope.idCodec.Faithful → ∀ item writtenAt d,
    envelope.encodeDocument item writtenAt = .ok d → Timestamp.FourDigitYear writtenAt →
      Headed envelope.idCodec d ⟨envelope.idOf item, envelope.version, writtenAt⟩

theorem Headed.version_eq {ids : Codec ι} {d : Document} {header : Header ι} {version : Int32}
    (headed : Headed ids d header) (stamped : d.get? versionField = some (.int32 version)) :
    header.version = version := by
  have same := headed.version.symm.trans stamped
  rwa [Option.some.injEq, Value.int32.injEq] at same

theorem reaches_iff {envelope : IdentifiedEnvelope α ι} {d : Document} {header : Header ι}
    (headed : Headed envelope.idCodec d header) {id : ι}
    {reader : ι → Document → Except SchemaFault α} :
    envelope.Reaches d id reader ↔
      header.id = id ∧ envelope.readers.get? header.version = some reader := by
  constructor
  · rintro ⟨other, here, known⟩
    have same := (readHeader_eq_ok.mpr headed).symm.trans (readHeader_eq_ok.mpr here)
    rw [Except.ok.inj same]
    exact known
  · intro known
    exact ⟨header, headed, known⟩

theorem dispatches_of_readers {envelope : IdentifiedEnvelope α ι}
    {given : List (Int32 × (ι → Document → Except SchemaFault α))}
    (readers : envelope.readers = Readers.ofGiven given) : envelope.Dispatches given := by
  have found (version : Int32) : envelope.readers.get? version = latest? given version := by
    rw [readers, Readers.get?_ofGiven]
  constructor
  · intro d header
    exact readHeader_eq_ok
  · intro d header version headed stamped reader last
    obtain rfl := headed.version_eq stamped
    have known := (found header.version).trans last
    exact ⟨(reaches_iff headed).mpr ⟨rfl, known⟩,
      decodeDocument_eq (readHeader_eq_ok.mpr headed) known⟩
  · intro d header version headed stamped absent
    obtain rfl := headed.version_eq stamped
    have unknown := (found header.version).trans (latest?_eq_none.mpr absent)
    constructor
    · intro id reader reached
      rw [((reaches_iff headed).mp reached).2] at unknown
      cases unknown
    · rw [decodeDocument_of_readHeader, readHeader_eq_ok.mpr headed, ok_bind,
        Readers.select_unknown unknown, error_bind]
  · intro d fault wrong
    have refused := headerFault_iff.mpr wrong
    constructor
    · rintro id reader ⟨header, headed, -⟩
      rw [readHeader_eq_ok.mpr headed] at refused
      cases refused
    · rw [decodeDocument_of_readHeader, refused]
      rfl
  · intro d
    cases read : envelope.readHeader d with
    | ok header => exact Or.inl ⟨header, readHeader_eq_ok.mp read⟩
    | error fault => exact Or.inr ⟨fault, headerFault_iff.mp read⟩
  · exact envelope.readers.keys_increasing
  · intro version
    rw [supportedVersions, readers]
    exact Readers.mem_keys_ofGiven
  · intro leaves item writtenAt d written
    obtain ⟨value, -, stamped⟩ := encodeDocument_stamped leaves written
    refine ⟨stamped.version, fun header headed => ?_⟩
    have version := headed.version_eq stamped.version
    simp only [reaches_iff headed, found, version, exists_and_left, exists_eq_left']
    exact exists_latest?
  · intro leaves ids item writtenAt d written year
    obtain ⟨value, id, stamped⟩ := encodeDocument_stamped leaves written
    exact readHeader_eq_ok.mp (readHeader_eq stamped (ids _ _ id) year)

end IdentifiedEnvelope

/-- Every envelope, made with any writer and any readers in any order, hands a document to the
    reader that was given last for its version, and to no other reader. -/
theorem versions_dispatch_exactly :
    (∀ (kind : Kind) (current : Int32)
      (writeFields : α → Document → Except GraphTooLarge Document)
      (given : List (Int32 × (Document → Except SchemaFault α))),
      let envelope := (Envelope.writing kind current writeFields).readingAll given
      envelope.kind = kind ∧ envelope.version = current ∧ envelope.Dispatches given) ∧
    ∀ (kind : Kind) (current : Int32) (idOf : α → ι) (ids : Codec ι)
      (writeFields : α → Document → Except GraphTooLarge Document)
      (given : List (Int32 × (ι → Document → Except SchemaFault α))),
      let envelope :=
        (IdentifiedEnvelope.writing kind current idOf ids writeFields).readingAll given
      envelope.kind = kind ∧ envelope.version = current ∧ envelope.idCodec = ids ∧
        envelope.Dispatches given := by
  constructor
  · intro kind current writeFields given
    have made := Envelope.readingAll_eq (.writing kind current writeFields) given
    refine ⟨congrArg Envelope.kind made, congrArg Envelope.version made, ?_⟩
    exact Envelope.dispatches_of_readers (congrArg Envelope.readers made)
  · intro kind current idOf ids writeFields given
    have made :=
      IdentifiedEnvelope.readingAll_eq (.writing kind current idOf ids writeFields) given
    refine ⟨congrArg IdentifiedEnvelope.kind made, congrArg IdentifiedEnvelope.version made,
      congrArg IdentifiedEnvelope.idCodec made, ?_⟩
    exact IdentifiedEnvelope.dispatches_of_readers (congrArg IdentifiedEnvelope.readers made)

/-- The version of the extreme number has a reader of its own, and the first version has two. -/
def sampleReaders : List (Int32 × (Document → Except SchemaFault Definition)) :=
  [(1, fun _ => .error (.missingField nameField)),
    (-2147483648, fun _ => .error (.missingField valueField)), (1, Definition.read)]

/-- It writes a version that it cannot read. -/
def sampleEnvelope : Envelope Definition :=
  (Envelope.writing .definitions 2 Definition.write).readingAll sampleReaders

theorem sampleEnvelope_leavesVersion : sampleEnvelope.LeavesVersion := by
  intro definition d written write
  cases write
  exact (Document.get?_set_other _ _ (by decide)).trans (Document.get?_set_other _ _ (by decide))

def sampleIdentifiedReaders :
    List (Int32 × (ComputationId → Document → Except SchemaFault Computation)) :=
  [(1, fun _ _ => .error (.missingField nameField)),
    (-2147483648, fun _ _ => .error (.missingField valueField)), (1, Computation.readFirst)]

def sampleIdentifiedEnvelope : IdentifiedEnvelope Computation ComputationId :=
  (IdentifiedEnvelope.writing .computations 2 Computation.id (computationIdCodec idField)
    Computation.write).readingAll sampleIdentifiedReaders

/-- Its version has a reader, but it does not say when it was written. -/
def undatedComputation : Document :=
  ⟨[(versionField, .int32 1), (idField, .string "c-1")]⟩

theorem sample_versions_dispatched :
    ((untidyDefinition "+12.50").get? versionField = some (.int32 1) ∧
      sampleEnvelope.decodeDocument (untidyDefinition "+12.50") =
        .ok ⟨⟨"rate"⟩, sampleDecimal⟩ ∧
      FieldFault Document.empty versionField "int32" Value.int32? (.missingField versionField) ∧
      sampleEnvelope.decodeDocument Document.empty = .error (.missingField versionField) ∧
      sampleEnvelope.LeavesVersion ∧ ∃ d,
        sampleEnvelope.encodeDocument ⟨⟨"rate"⟩, sampleDecimal⟩ = .ok d ∧
        (¬ ∃ reader, sampleEnvelope.Reaches d reader) ∧
        sampleEnvelope.decodeDocument d = .error (.unsupportedVersion .definitions 2)) ∧
    IdentifiedEnvelope.Headed (computationIdCodec idField) firstComputation
        ⟨⟨"c-1"⟩, 1, 1700000000000000⟩ ∧
      sampleIdentifiedEnvelope.decodeDocument firstComputation = .ok freshSample ∧
      IdentifiedEnvelope.HeaderFault (computationIdCodec idField) undatedComputation
        (.missingField dateField) ∧
      sampleIdentifiedEnvelope.decodeDocument undatedComputation =
        .error (.missingField dateField) ∧
      sampleIdentifiedEnvelope.LeavesHeader ∧ (computationIdCodec idField).Faithful ∧ ∃ d,
        sampleIdentifiedEnvelope.encodeDocument sampleComputation 1700000000000000 = .ok d ∧
        d.get? versionField = some (.int32 2) ∧
        (¬ ∃ id reader, sampleIdentifiedEnvelope.Reaches d id reader) ∧
        sampleIdentifiedEnvelope.decodeDocument d =
          .error (.unsupportedVersion .computations 2) := by
  constructor
  · obtain ⟨-, -, dispatches⟩ := (@versions_dispatch_exactly Definition ComputationId).1
      .definitions 2 Definition.write sampleReaders
    have stamped : (untidyDefinition "+12.50").get? versionField = some (.int32 1) := rfl
    have headless : FieldFault Document.empty versionField "int32" Value.int32?
        (.missingField versionField) := .missing rfl
    have absent (reader : Document → Except SchemaFault Definition) :
        ((2 : Int32), reader) ∉ sampleReaders := by
      simp [sampleReaders]
    refine ⟨stamped, (dispatches.latest _ _ stamped Definition.read rfl).2, headless,
      (dispatches.unheaded _ _ headless).2, sampleEnvelope_leavesVersion, _, rfl, ?_, ?_⟩
    · intro reached
      obtain ⟨reader, given⟩ :=
        (dispatches.written sampleEnvelope_leavesVersion _ _ rfl).mp reached
      exact absent reader given
    · exact (dispatches.unsupported _ 2 rfl absent).2
  · obtain ⟨-, -, -, dispatches⟩ := versions_dispatch_exactly.2 .computations 2 Computation.id
      (computationIdCodec idField) Computation.write sampleIdentifiedReaders
    have headed : IdentifiedEnvelope.Headed (computationIdCodec idField) firstComputation
        ⟨⟨"c-1"⟩, 1, 1700000000000000⟩ := ⟨⟨_, rfl, rfl⟩, rfl, _, _, rfl, rfl, rfl⟩
    have undated : IdentifiedEnvelope.HeaderFault (computationIdCodec idField) undatedComputation
        (.missingField dateField) := .date rfl rfl rfl (.missing rfl)
    have leaves : sampleIdentifiedEnvelope.LeavesHeader := Computation.envelope_leavesHeader
    have ids : (computationIdCodec idField).Faithful := textCodec_faithful idField fun _ => rfl
    have absent (reader : ComputationId → Document → Except SchemaFault Computation) :
        ((2 : Int32), reader) ∉ sampleIdentifiedReaders := by
      simp [sampleIdentifiedReaders]
    have written := dispatches.written leaves sampleComputation 1700000000000000 _ rfl
    have readable := dispatches.readable leaves ids sampleComputation 1700000000000000 _ rfl
      (by decide)
    refine ⟨headed, (dispatches.latest _ _ _ headed rfl Computation.readFirst rfl).2, undated,
      (dispatches.unheaded _ _ undated).2, leaves, ids, _, rfl, written.1, ?_, ?_⟩
    · intro reached
      obtain ⟨reader, given⟩ := (written.2 _ readable).mp reached
      exact absent reader given
    · exact (dispatches.unsupported _ _ _ readable written.1 absent).2

end EntityCatalog
