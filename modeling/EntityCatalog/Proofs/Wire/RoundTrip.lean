import EntityCatalog.Proofs.Fields
import EntityCatalog.Proofs.Wire.Form
import EntityCatalog.Proofs.Wire.Frames
import EntityCatalog.Wire.Decoding

/- What the writer accepts under some limits the reader accepts under the same limits, and it finds
   the same document, whether the stored form is plain or compressed. The reader may even be given
   looser limits than those under which the document was written. -/
namespace EntityCatalog
variable {α : Type}

namespace Limits

theorem capped_le (limits : Limits) : limits.capped ≤ limits :=
  ⟨Nat.min_le_left _ _, Nat.min_le_left _ _, Nat.min_le_left _ _, Nat.min_le_left _ _⟩

theorem capped_le_caps (limits : Limits) : limits.capped ≤ caps :=
  ⟨Nat.min_le_right _ _, Nat.min_le_right _ _, Nat.min_le_right _ _, Nat.min_le_right _ _⟩

end Limits

def innerReader? (limits : Limits) : Nat → Option (Cursor → Reply Value)
  | 0 => none
  | depth + 1 => some (readValue limits depth)

theorem tag_reads_back (tag : Tag) : Reads readTag [tag.byte] tag := by
  intro position rest
  simp [readTag]

theorem tagged_reads_back {limits : Limits} {depth : Nat} {tag : Tag} {payload : Bytes}
    {value : Value}
    (inner : Reads (readPayload limits (innerReader? limits depth) tag) payload value) :
    Reads (readValue limits depth) (tag.byte :: payload) value := by
  have read := (tag_reads_back tag).andThen inner
  cases depth with
  | zero => exact read
  | succ depth => exact read

theorem int32_reads_back (number : Int32) :
    Reads readInt32 (varint (zigzag number.toInt)) (.int32 number) := by
  have low := number.le_toInt
  have high := number.toInt_lt
  apply (signed_reads_back "int32" (by omega) (by omega)).check
  intro cursor
  rw [if_pos ⟨number.minValue_le_toInt, number.toInt_le⟩, Int32.ofInt_toInt]

theorem int64_reads_back (reading : String) (number : Int64) :
    Reads (fun cursor => (Cursor.readSigned reading cursor).map fun number =>
      Value.int64 (Int64.ofInt number)) (varint (zigzag number.toInt)) (.int64 number) := by
  have read := (signed_reads_back reading number.le_toInt number.toInt_lt).map fun number =>
    Value.int64 (Int64.ofInt number)
  rwa [Int64.ofInt_toInt] at read

theorem field_reads_back {limits : Limits} {read : Cursor → Reply Value} {name : String}
    {value : Value} {valueBytes : Bytes} (count : Nat) {d result : Document} {others : Bytes}
    (allowed : name.utf8ByteSize ≤ limits.stringLength) (bound : name.utf8ByteSize < UInt64.size)
    (here : Reads read valueBytes value)
    (after : Reads (readFields limits read count (d.set name value)) others result) :
    Reads (readFields limits read (count + 1) d) (textForm name ++ (valueBytes ++ others))
      result := by
  exact (string_reads_back "field_name" allowed bound).andThen (here.andThen after)

theorem item_reads_back {read : Cursor → Reply α} {item : α} {itemBytes : Bytes} (count : Nat)
    {taken result : List α} {others : Bytes} (here : Reads read itemBytes item)
    (after : Reads (readMany read count (item :: taken)) others result) :
    Reads (readMany read (count + 1) taken) (itemBytes ++ others) result := by
  exact here.andThen after

section
variable {strict loose : Limits}

mutual

theorem Value.reads_back (tight : strict ≤ loose) (capped : strict ≤ .caps) {room depth : Nat}
    (deep : room ≤ depth) (value : Value) (within : value.Within strict room)
    (distinct : value.DistinctNames) : Reads (readValue loose depth) value.form value := by
  cases value with
  | null => exact tagged_reads_back (.done _)
  | bool flag => exact tagged_reads_back ((bool_reads_back "bool" flag).map Value.bool)
  | int32 number => exact tagged_reads_back (int32_reads_back number)
  | int64 number => exact tagged_reads_back (int64_reads_back "int64" number)
  | string text =>
    have allowed : text.utf8ByteSize ≤ loose.stringLength := Nat.le_trans within tight.2.1
    have bound : text.utf8ByteSize < UInt64.size :=
      Nat.lt_of_le_of_lt (Nat.le_trans within capped.2.1) (by decide)
    exact tagged_reads_back ((string_reads_back "string" allowed bound).map Value.string)
  | array items =>
    obtain ⟨open_room, length_le, inner⟩ := within
    obtain ⟨depth, rfl⟩ : ∃ inner, depth = inner + 1 := ⟨depth - 1, by omega⟩
    have allowed : items.length ≤ loose.arrayLength := Nat.le_trans length_le tight.2.2.1
    have bound : items.length < UInt64.size :=
      Nat.lt_of_le_of_lt (Nat.le_trans length_le capped.2.2.1) (by decide)
    have read := items_read_back tight capped (by omega : room - 1 ≤ depth) [] items inner distinct
    exact tagged_reads_back
      ((length_reads_back "array_len" allowed bound).andThen (read.map Value.array))
  | document fields =>
    obtain ⟨open_room, count_le, inner⟩ := within
    obtain ⟨depth, rfl⟩ : ∃ inner, depth = inner + 1 := ⟨depth - 1, by omega⟩
    have bound : fields.length < UInt64.size := Nat.lt_of_le_of_lt count_le (by decide)
    have read := fields_read_back tight capped (by omega : room - 1 ≤ depth) [] fields inner
      distinct.1 distinct.2
    exact tagged_reads_back
      (((length_reads_back "field_count" count_le bound).andThen read).map Document.toValue)

theorem items_read_back (tight : strict ≤ loose) (capped : strict ≤ .caps) {room depth : Nat}
    (deep : room ≤ depth) (taken items : List Value) (within : ItemsWithin strict room items)
    (distinct : ItemsDistinctNames items) :
    Reads (readMany (readValue loose depth) items.length taken) (itemsForm items)
      (taken.reverse ++ items) := by
  cases items with
  | nil =>
    rw [List.append_nil]
    exact Reads.done taken.reverse
  | cons item rest =>
    have first := Value.reads_back tight capped deep item within.1 distinct.1
    have others := items_read_back tight capped deep (item :: taken) rest within.2 distinct.2
    rw [List.reverse_cons, List.append_assoc] at others
    exact item_reads_back rest.length first others

theorem fields_read_back (tight : strict ≤ loose) (capped : strict ≤ .caps) {room depth : Nat}
    (deep : room ≤ depth) (before fields : List (String × Value))
    (within : FieldsWithin strict room fields)
    (names : ((before ++ fields).map Prod.fst).Nodup) (distinct : FieldsDistinctNames fields) :
    Reads (readFields loose (readValue loose depth) fields.length ⟨before⟩) (fieldsForm fields)
      ⟨before ++ fields⟩ := by
  cases fields with
  | nil =>
    rw [List.append_nil]
    exact Reads.done (Document.mk before)
  | cons field rest =>
    obtain ⟨name, value⟩ := field
    have absent : name ∉ before.map Prod.fst := by
      intro member
      rw [List.map_append, List.nodup_append] at names
      exact names.2.2 name member name (by simp) rfl
    have placed : (Document.mk before).set name value = ⟨before ++ [(name, value)]⟩ := by
      rw [Document.set, setField_new value absent]
    have first := Value.reads_back tight capped deep value within.2.1 distinct.1
    have others := fields_read_back tight capped deep (before ++ [(name, value)]) rest within.2.2
      (by simpa using names) distinct.2
    rw [List.append_assoc] at others
    refine field_reads_back rest.length (Nat.le_trans within.1 tight.2.1)
      (Nat.lt_of_le_of_lt (Nat.le_trans within.1 capped.2.1) (by decide)) first ?_
    rw [placed]
    exact others

end

theorem Document.reads_back (tight : strict ≤ loose) (capped : strict ≤ .caps) {d : Document}
    (within : d.Within strict) (distinct : d.DistinctNames) :
    Reads (readDocument loose (readValue loose loose.depth)) d.form d := by
  have bound : d.fields.length < UInt64.size := Nat.lt_of_le_of_lt within.1 (by decide)
  exact (length_reads_back "field_count" within.1 bound).andThen
    (fields_read_back tight capped tight.2.2.2 [] d.fields within.2 distinct.1 distinct.2)

end

theorem decodePlain_bytes {limits : Limits} {d : Document} (within : d.Within limits.capped)
    (small : d.bytes.length ≤ limits.documentSize) (distinct : d.DistinctNames) :
    decodePlain limits d.bytes = .ok d := by
  have magic : plainMagic.isPrefixOf d.bytes = true := by
    simp [Document.bytes_eq, formHeader, plainMagic]
  have version : (Cursor.start (d.bytes.drop plainMagic.length)).readByte "version" =
      .done currentFormat ⟨1, d.form⟩ := by
    simp [Document.bytes_eq, formHeader, plainMagic, Cursor.start, Cursor.readByte]
  have body := d.reads_back limits.capped_le limits.capped_le_caps within distinct 1 []
  rw [List.append_nil] at body
  have supported : ¬ (currentFormat < oldestFormat ∨ currentFormat < currentFormat) := by decide
  simp only [decodePlain, magic, Bool.true_eq_false, if_false, if_neg (Nat.not_lt.mpr small),
    version, if_neg supported, body, if_true]

theorem isPacked_bytes (d : Document) : isPacked d.bytes = false := by
  -- The plain form is not taken for a compressed one: a format version follows its magic.
  rw [isPacked, Document.bytes_eq]
  rfl

theorem decode_bytes (method : Compression) {limits : Limits} {d : Document}
    (within : d.Within limits.capped) (small : d.bytes.length ≤ limits.documentSize)
    (distinct : d.DistinctNames) : decode method limits d.bytes = .ok d := by
  have long : ¬ d.bytes.length < plainMagic.length := by
    simp [Document.bytes_eq, formHeader]
  simp only [decode, if_neg long, isPacked_bytes, Bool.false_eq_true, if_false]
  exact decodePlain_bytes within small distinct

theorem Run.take_eq (limit : Nat) (run : Run) : run.take limit = run.bytes.take limit := by
  cases run with
  | literal bytes => rfl
  | repeated byte count => simp [Run.take, Run.bytes, List.take_replicate]

theorem takeRuns_eq (found : Array UInt8) (limit : Nat) (runs : List Run) :
    (takeRuns found limit runs).toList = found.toList ++ (runs.flatMap Run.bytes).take limit := by
  induction runs generalizing found limit with
  | nil => simp [takeRuns]
  | cons run rest ih =>
    simp only [takeRuns]
    split
    · rename_i full
      simp [full]
    · rw [ih, Run.take_eq, List.flatMap_cons, List.take_append, List.length_take]
      have left : limit - min limit run.bytes.length = limit - run.bytes.length := by omega
      simp [left]

theorem Stream.take_eq (limit : Nat) (stream : Stream) :
    stream.take limit = stream.bytes.take limit := by
  simp [Stream.take, takeRuns_eq, Stream.bytes]

theorem unpackSized_honest {method : Compression} {limits : Limits} {plain payload : Bytes}
    (small : plain.length ≤ limits.documentSize) (bound : plain.length < UInt64.size)
    (whole : (method.unpack plain.length payload).bytes = plain)
    (intact : (method.unpack plain.length payload).intact = true) :
    unpackSized method limits (varint plain.length ++ payload) = .ok plain := by
  have size := length_reads_back "uncompressed_size" small bound 0 payload
  have found : (method.unpack plain.length payload).take (plain.length + 1) = plain := by
    rw [Stream.take_eq, whole]
    exact List.take_of_length_le (Nat.le_succ _)
  simp only [unpackSized, Cursor.start, size, found, Nat.lt_irrefl, if_false, intact,
    Bool.true_eq_false]

def packedForm (plain payload : Bytes) : Bytes := packedMagic ++ varint plain.length ++ payload

theorem encodePacked_eq_ok_iff {method : Compression} {level : Int32} {limits : Limits}
    {d : Document} {packed : Bytes} :
    encodePacked method level limits d = .ok packed ↔
      encode limits d = .ok d.bytes ∧
        ∃ payload, method.pack level d.bytes = some payload ∧
          packed = packedForm d.bytes payload := by
  unfold encodePacked
  constructor
  · intro written
    split at written
    · contradiction
    · rename_i plain accepted
      obtain ⟨_, _, rfl⟩ := encode_eq_ok_iff.mp accepted
      split at written
      · contradiction
      · rename_i payload made
        cases written
        exact ⟨accepted, payload, made, rfl⟩
  · rintro ⟨accepted, payload, made, rfl⟩
    simp only [accepted, made, packedForm]

section
variable {method : Compression} {level : Int32} {limits : Limits} {d : Document} {payload : Bytes}

theorem isPacked_packedForm (plain payload : Bytes) :
    isPacked (packedForm plain payload) = true := by
  simp [isPacked, packedForm, packedMagic]

theorem packedForm_drop (plain payload : Bytes) :
    (packedForm plain payload).drop packedMagic.length = varint plain.length ++ payload := by
  simp [packedForm]

theorem packedForm_length (plain payload : Bytes) :
    packedMagic.length ≤ (packedForm plain payload).length := by
  simp [packedForm]

theorem unpackSized_packed {loose : Limits} (faithful : method.Faithful)
    (made : method.pack level d.bytes = some payload)
    (capped : d.bytes.length ≤ Limits.caps.documentSize)
    (small : d.bytes.length ≤ loose.documentSize) :
    unpackSized method loose (varint d.bytes.length ++ payload) = .ok d.bytes := by
  obtain ⟨whole, intact⟩ := faithful level d.bytes payload made
  exact unpackSized_honest small (Nat.lt_of_le_of_lt capped (by decide)) whole intact

theorem decompress_packedForm (faithful : method.Faithful)
    (made : method.pack level d.bytes = some payload)
    (capped : d.bytes.length ≤ Limits.caps.documentSize) :
    decompress method (packedForm d.bytes payload) = .ok d.bytes := by
  have long := packedForm_length d.bytes payload
  simp only [decompress, if_neg (Nat.not_lt.mpr long), isPacked_packedForm, if_true,
    packedForm_drop]
  exact unpackSized_packed faithful made capped capped

theorem decode_packed {plain : Bytes}
    (unpacked : unpackSized method limits (varint plain.length ++ payload) = .ok plain) :
    decode method limits (packedForm plain payload) = decodePlain limits plain := by
  have long : ¬ (packedForm plain payload).length < plainMagic.length := by
    simp [packedForm, packedMagic, plainMagic]
  simp only [decode, if_neg long, isPacked_packedForm, if_true, packedForm_drop, unpacked]

theorem decode_packedForm (faithful : method.Faithful)
    (made : method.pack level d.bytes = some payload) (within : d.Within limits.capped)
    (small : d.bytes.length ≤ limits.capped.documentSize) (distinct : d.DistinctNames) :
    decode method limits (packedForm d.bytes payload) = .ok d := by
  have allowed := Nat.le_trans small limits.capped_le.1
  have unpacked := unpackSized_packed faithful made
    (Nat.le_trans small limits.capped_le_caps.1) allowed
  rw [decode_packed unpacked]
  exact decodePlain_bytes within allowed distinct

end

theorem decode_of_encode (method : Compression) {limits : Limits} {d : Document} {bytes : Bytes}
    (distinct : d.DistinctNames) (written : encode limits d = .ok bytes) :
    decode method limits bytes = .ok d := by
  obtain ⟨within, small, rfl⟩ := encode_eq_ok_iff.mp written
  exact decode_bytes method within (Nat.le_trans small limits.capped_le.1) distinct

theorem decode_of_encodePacked {method : Compression} {level : Int32} {limits : Limits}
    {d : Document} {packed : Bytes} (faithful : method.Faithful) (distinct : d.DistinctNames)
    (written : encodePacked method level limits d = .ok packed) :
    decode method limits packed = .ok d := by
  obtain ⟨accepted, payload, made, rfl⟩ := encodePacked_eq_ok_iff.mp written
  obtain ⟨within, small, _⟩ := encode_eq_ok_iff.mp accepted
  exact decode_packedForm faithful made within small distinct

theorem stored_forms_read_back (method : Compression) (limits : Limits) (d : Document)
    (distinct : d.DistinctNames) :
    (∀ bytes, encode limits d = .ok bytes → decode method limits bytes = .ok d) ∧
      (method.Faithful → ∀ level packed, encodePacked method level limits d = .ok packed →
        isPacked packed = true ∧
          (∃ plain, encode limits d = .ok plain ∧ decompress method packed = .ok plain) ∧
          decode method limits packed = .ok d) := by
  constructor
  · intro bytes written
    exact decode_of_encode method distinct written
  · intro faithful level packed written
    have read := decode_of_encodePacked faithful distinct written
    obtain ⟨accepted, payload, made, rfl⟩ := encodePacked_eq_ok_iff.mp written
    obtain ⟨_, small, _⟩ := encode_eq_ok_iff.mp accepted
    have capped := Nat.le_trans small limits.capped_le_caps.1
    exact ⟨isPacked_packedForm d.bytes payload,
      ⟨d.bytes, accepted, decompress_packedForm faithful made capped⟩, read⟩

/-- Empty containers, null, both widths of integers and equal names on different levels. -/
def nestedSample : Document :=
  ⟨[("a", .array [.null, .document [], .int32 (-1)]), ("b", .int64 Int64.minValue),
    ("c", .document [("a", .string "ä"), ("b", .array [])])]⟩

def nestedSampleLimits : Limits := ⟨42, 2, 3, 2⟩

theorem nestedSample_accepted :
    encode nestedSampleLimits nestedSample = .ok nestedSample.bytes := by
  refine encode_eq_ok_iff.mpr ⟨Document.fault?_eq_none.mp ?_, ?_, rfl⟩
  · decide +kernel
  · decide +kernel

theorem nested_sample_reads_back :
    nestedSample.DistinctNames ∧ storedFrames.Faithful ∧
      decode storedFrames nestedSampleLimits nestedSample.bytes = .ok nestedSample ∧
      ∃ packed, encodePacked storedFrames 19 nestedSampleLimits nestedSample = .ok packed ∧
        isPacked packed = true ∧ decompress storedFrames packed = .ok nestedSample.bytes ∧
        decode storedFrames nestedSampleLimits packed = .ok nestedSample := by
  have distinct : nestedSample.DistinctNames := by
    simp [nestedSample, Document.DistinctNames, Document.toValue, Value.DistinctNames,
      ItemsDistinctNames, FieldsDistinctNames]
  obtain ⟨plain, packed⟩ := stored_forms_read_back storedFrames nestedSampleLimits nestedSample
    distinct
  obtain ⟨payload, frame⟩ : ∃ payload, storedFrames.pack 19 nestedSample.bytes = some payload :=
    ⟨_, rfl⟩
  have made := encodePacked_eq_ok_iff.mpr ⟨nestedSample_accepted, payload, frame, rfl⟩
  obtain ⟨marked, ⟨inner, accepted, unpacked⟩, read⟩ := packed storedFrames_faithful 19 _ made
  rw [nestedSample_accepted] at accepted
  cases accepted
  exact ⟨distinct, storedFrames_faithful, plain _ nestedSample_accepted, _, made, marked, unpacked,
    read⟩

end EntityCatalog
