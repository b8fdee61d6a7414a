import EntityCatalog.Proofs.Wire.RoundTrip

/- Bytes of any origin that the reader accepts. A reader uses up at least as many bytes as the form
   of what it finds takes: a varint may be longer than it has to be, and of a field whose name comes
   again nothing is kept but the place. So whatever was read is written again in no more bytes. -/
namespace EntityCatalog
variable {α β : Type}

/-- How the values that a reader finds relate to the number of bytes it uses up for them. -/
def Uses (read : Cursor → Reply α) (relation : α → Nat → Prop) : Prop :=
  ∀ cursor value next, read cursor = .done value next →
    ∃ used, cursor.rest.length = used + next.rest.length ∧ relation value used

namespace Uses
variable {read : Cursor → Reply α} {relation : α → Nat → Prop}

theorem weaken {weaker : α → Nat → Prop} (here : Uses read relation)
    (implies : ∀ value used, relation value used → weaker value used) : Uses read weaker := by
  intro cursor value next found
  obtain ⟨used, counted, related⟩ := here cursor value next found
  exact ⟨used, counted, implies value used related⟩

theorem done {value : α} (related : relation value 0) : Uses (Reply.done value) relation := by
  intro cursor found next same
  cases same
  exact ⟨0, by omega, related⟩

theorem failed (fault : ReadFault) : Uses (Reply.failed fault) relation := by
  intro cursor found next same
  cases same

theorem andThen {onward : α → Cursor → Reply β} {total : β → Nat → Prop}
    (here : Uses read relation)
    (after : ∀ value used, relation value used →
      Uses (onward value) fun result more => total result (used + more)) :
    Uses (fun cursor => (read cursor).andThen onward) total := by
  intro cursor result last found
  obtain ⟨value, next, first, onward_found⟩ := Reply.andThen_eq_done.mp found
  obtain ⟨used, counted, related⟩ := here cursor value next first
  obtain ⟨more, counted_on, whole⟩ := after value used related next result last onward_found
  exact ⟨used + more, by omega, whole⟩

theorem map {f : α → β} {whole : β → Nat → Prop}
    (here : Uses read fun value used => whole (f value) used) :
    Uses (fun cursor => (read cursor).map f) whole := by
  intro cursor result next found
  obtain ⟨value, first, rfl⟩ := Reply.map_eq_done.mp found
  exact here cursor value next first

end Uses

theorem readByte_uses (reading : String) :
    Uses (Cursor.readByte reading) fun _ used => used = 1 := by
  intro cursor byte next found
  unfold Cursor.readByte at found
  cases bytes : cursor.rest with
  | nil =>
    simp only [bytes] at found
    cases found
  | cons first others =>
    simp only [bytes] at found
    cases found
    exact ⟨1, by simp only [List.length_cons]; omega, rfl⟩

theorem readBool_uses (reading : String) : Uses (Cursor.readBool reading) fun _ used => used = 1 := by
  apply (readByte_uses reading).andThen
  intro byte used one
  subst one
  by_cases zero : byte = 0
  · simp only [if_pos zero]
    exact Uses.done rfl
  · by_cases one : byte = 1
    · simp only [if_neg zero, if_pos one]
      exact Uses.done rfl
    · simp only [if_neg zero, if_neg one]
      exact Uses.failed _

theorem varint_small {n : Nat} (small : n < 128) : (varint n).length = 1 := by
  rw [varint, if_pos small]
  rfl

theorem varint_large {n : Nat} (large : 128 ≤ n) :
    (varint n).length = (varint (n / 128)).length + 1 := by
  rw [varint, if_neg (Nat.not_lt.mpr large)]
  rfl

theorem varint_length_mono {m n : Nat} (le : m ≤ n) : (varint m).length ≤ (varint n).length := by
  induction n using Nat.strongRecOn generalizing m with
  | ind n ih =>
    by_cases small : n < 128
    · have shorter := varint_small (Nat.lt_of_le_of_lt le small)
      exact Nat.le_of_eq (shorter.trans (varint_small small).symm)
    · rw [varint_large (Nat.not_lt.mp small)]
      by_cases first : m < 128
      · rw [varint_small first]
        exact Nat.le_add_left 1 _
      · rw [varint_large (Nat.not_lt.mp first)]
        have fewer := ih (n / 128) (by omega) (Nat.div_le_div_right le : m / 128 ≤ n / 128)
        exact Nat.add_le_add_right fewer 1

theorem varint_length_group (n : Nat) {group : Nat} (group_lt : group < 128) :
    (varint (group + 128 * n)).length ≤ (varint n).length + 1 := by
  -- One group more in front makes a varint longer by one byte at most. It adds nothing to zero.
  by_cases zero : n = 0
  · rw [zero, Nat.mul_zero, Nat.add_zero, varint_small group_lt]
    exact Nat.le_add_left 1 _
  · have rest : (group + 128 * n) / 128 = n := by omega
    have longer := varint_large (by omega : 128 ≤ group + 128 * n)
    rw [rest] at longer
    exact Nat.le_of_eq longer

/-- However many groups are read, their number takes up no more bytes in its shortest form. -/
theorem readGroups_uses (reading : String) (left weight sum : Nat) :
    Uses (Cursor.readGroups reading left weight sum) fun total used =>
      total < UInt64.size ∧ ∃ n, total = sum + n * weight ∧ (varint n).length ≤ used := by
  induction left generalizing weight sum with
  | zero => exact Uses.failed _
  | succ left ih =>
    apply (readByte_uses reading).andThen
    intro byte used one
    subst one
    have group_lt : byte.toNat % 128 < 128 := Nat.mod_lt _ (by decide)
    by_cases large : UInt64.size ≤ sum + byte.toNat % 128 * weight
    · simp only [if_pos large]
      exact Uses.failed _
    · by_cases last : byte.toNat < 128
      · simp only [if_neg large, if_pos last]
        refine Uses.done ⟨Nat.not_le.mp large, byte.toNat % 128, rfl, ?_⟩
        exact Nat.le_of_eq (varint_small group_lt)
      · simp only [if_neg large, if_neg last]
        refine (ih (weight * 128) (sum + byte.toNat % 128 * weight)).weaken ?_
        rintro total more ⟨bound, n, whole, short⟩
        refine ⟨bound, byte.toNat % 128 + 128 * n, ?_, ?_⟩
        · rw [whole, Nat.add_mul, Nat.add_assoc, Nat.mul_comm weight, ← Nat.mul_assoc,
            Nat.mul_comm n]
        · have longer := varint_length_group n group_lt
          omega

theorem readVarint_uses (reading : String) :
    Uses (Cursor.readVarint reading) fun n used =>
      n < UInt64.size ∧ (varint n).length ≤ used := by
  refine (readGroups_uses reading maxVarintLength 1 0).weaken ?_
  rintro total used ⟨bound, n, whole, short⟩
  rw [Nat.mul_one, Nat.zero_add] at whole
  rw [whole] at bound ⊢
  exact ⟨bound, short⟩

theorem readLength_uses (limit : Nat) (part : String) :
    Uses (Cursor.readLength limit part) fun n used => n ≤ limit ∧ (varint n).length ≤ used := by
  apply (readVarint_uses part).andThen
  rintro n used ⟨-, short⟩
  by_cases large : limit < n
  · simp only [if_pos large]
    exact Uses.failed _
  · simp only [if_neg large]
    exact Uses.done ⟨Nat.not_lt.mp large, short⟩

theorem splitExactly_eq_some {count : Nat} {taken input bytes rest : Bytes}
    (split : Cursor.splitExactly count taken input = some (bytes, rest)) :
    ∃ data, data.length = count ∧ input = data ++ rest ∧ bytes = taken.reverse ++ data := by
  induction count generalizing taken input with
  | zero =>
    cases split
    exact ⟨[], rfl, rfl, by simp⟩
  | succ count ih =>
    cases input with
    | nil => cases split
    | cons byte others =>
      obtain ⟨data, length, rfl, rfl⟩ := ih split
      exact ⟨byte :: data, by simp [length], rfl, by simp⟩

theorem readBytes_uses (count : Nat) (reading : String) :
    Uses (Cursor.readBytes count reading) fun bytes used =>
      bytes.length = count ∧ used = count := by
  intro cursor bytes next found
  unfold Cursor.readBytes at found
  split at found
  · cases found
  · rename_i taken rest split
    cases found
    obtain ⟨data, length, input, rfl⟩ := splitExactly_eq_some split
    refine ⟨count, ?_, by simpa using length, rfl⟩
    rw [input, List.length_append, length]

theorem textForm_length (text : String) :
    (textForm text).length = (varint text.utf8ByteSize).length + text.utf8ByteSize := by
  rw [textForm, List.length_append, utf8_length]

theorem readString_uses (limit : Nat) (part : String) :
    Uses (Cursor.readString limit part) fun text used =>
      text.utf8ByteSize ≤ limit ∧ (textForm text).length ≤ used := by
  apply (readLength_uses limit part).andThen
  rintro length used ⟨allowed, short⟩
  apply (readBytes_uses length part).andThen
  rintro bytes more ⟨exact_length, rfl⟩
  cases read : ofUtf8? bytes with
  | none => exact Uses.failed _
  | some text =>
    have size : text.utf8ByteSize = more := by
      rw [← utf8_length, utf8_of_ofUtf8? read, exact_length]
    refine Uses.done ⟨by omega, ?_⟩
    rw [textForm_length, size]
    omega

theorem readTag_uses : Uses readTag fun _ used => used = 1 := by
  apply (readByte_uses "value_tag").andThen
  intro byte used one
  subst one
  cases Tag.ofByte? byte with
  | none => exact Uses.failed _
  | some tag => exact Uses.done rfl

theorem unzigzag_range {k : Nat} (bound : k < UInt64.size) :
    -9223372036854775808 ≤ unzigzag k ∧ unzigzag k < 9223372036854775808 := by
  simp only [UInt64.size] at bound
  unfold unzigzag
  split <;> omega

theorem readSigned_uses (reading : String) :
    Uses (Cursor.readSigned reading) fun number used =>
      (-9223372036854775808 ≤ number ∧ number < 9223372036854775808) ∧
        (varint (zigzag number)).length ≤ used := by
  apply Uses.map
  refine (readVarint_uses reading).weaken ?_
  rintro k used ⟨bound, short⟩
  rw [zigzag_unzigzag]
  exact ⟨unzigzag_range bound, short⟩

structure Value.ReadFrom (limits : Limits) (room : Nat) (value : Value) (used : Nat) : Prop where
  distinct : value.DistinctNames
  within : value.Within limits room
  short : value.form.length ≤ used

structure ItemsReadFrom (limits : Limits) (room : Nat) (items : List Value) (used : Nat) :
    Prop where
  distinct : ItemsDistinctNames items
  within : ItemsWithin limits room items
  short : (itemsForm items).length ≤ used

structure FieldsReadFrom (limits : Limits) (room : Nat) (d : Document) (used : Nat) : Prop where
  distinct : d.DistinctNames
  within : FieldsWithin limits room d.fields
  short : (fieldsForm d.fields).length ≤ used

theorem fieldsWithin_iff {limits : Limits} {room : Nat} {fields : List (String × Value)} :
    FieldsWithin limits room fields ↔ ∀ field ∈ fields,
      field.1.utf8ByteSize ≤ limits.stringLength ∧ field.2.Within limits room := by
  induction fields with
  | nil => simp [FieldsWithin]
  | cons field rest ih => simp [FieldsWithin, ih, and_assoc]

theorem setField_form_length (name : String) (value : Value) (fields : List (String × Value)) :
    (fieldsForm (setField name value fields)).length ≤
      (fieldsForm fields).length + ((textForm name).length + value.form.length) := by
  -- A field that takes the place of another leaves the bytes of the old value out.
  induction fields with
  | nil => simp
  | cons field rest ih =>
    by_cases same : field.1 = name
    · simp only [setField_known value same, fieldsForm_cons, List.length_append]
      omega
    · simp only [setField_other value same, fieldsForm_cons, List.length_append]
      omega

theorem setField_length (name : String) (value : Value) (fields : List (String × Value)) :
    (setField name value fields).length ≤ fields.length + 1 := by
  induction fields with
  | nil => simp
  | cons field rest ih =>
    by_cases same : field.1 = name
    · simp [same]
    · simpa [same] using ih

section
variable {limits : Limits} {room : Nat}

theorem FieldsReadFrom.set {d : Document} {name : String} {value : Value} {before here more : Nat}
    (known : FieldsReadFrom limits room d before)
    (name_allowed : name.utf8ByteSize ≤ limits.stringLength)
    (name_short : (textForm name).length ≤ here) (read : value.ReadFrom limits room more) :
    FieldsReadFrom limits room (d.set name value) (before + (here + more)) where
  distinct := Document.set_distinctNames known.distinct read.distinct
  within := by
    apply fieldsWithin_iff.mpr
    intro field member
    rcases mem_setField member with added | old
    · rw [added]
      exact ⟨name_allowed, read.within⟩
    · exact fieldsWithin_iff.mp known.within field old
  short := by
    have grown := setField_form_length name value d.fields
    have old := known.short
    have new := read.short
    change (fieldsForm (setField name value d.fields)).length ≤ _
    omega

theorem readMany_uses {readItem : Cursor → Reply Value}
    (each : Uses readItem (Value.ReadFrom limits room)) (count : Nat) (taken : List Value) :
    Uses (readMany readItem count taken) fun items used =>
      ∃ found, items = taken.reverse ++ found ∧ found.length = count ∧
        ItemsReadFrom limits room found used := by
  induction count generalizing taken with
  | zero => exact Uses.done ⟨[], by simp, rfl, trivial, trivial, Nat.le_refl _⟩
  | succ count ih =>
    apply each.andThen
    intro item used first
    refine (ih (item :: taken)).weaken ?_
    rintro items more ⟨found, rfl, length, others⟩
    refine ⟨item :: found, by simp, by simp [length], ⟨first.distinct, others.distinct⟩,
      ⟨first.within, others.within⟩, ?_⟩
    have here := first.short
    have after := others.short
    simp only [itemsForm_cons, List.length_append]
    omega

theorem readFields_uses {readValue : Cursor → Reply Value}
    (each : Uses readValue (Value.ReadFrom limits room)) (count : Nat) {d : Document}
    {before : Nat} (known : FieldsReadFrom limits room d before) :
    Uses (readFields limits readValue count d) fun result used =>
      result.fields.length ≤ d.fields.length + count ∧
        FieldsReadFrom limits room result (before + used) := by
  induction count generalizing d before with
  | zero => exact Uses.done ⟨Nat.le_refl _, known⟩
  | succ count ih =>
    apply (readString_uses limits.stringLength "field_name").andThen
    rintro name here ⟨name_allowed, name_short⟩
    apply each.andThen
    intro value more read
    refine (ih (known.set name_allowed name_short read)).weaken ?_
    rintro result rest ⟨length, found⟩
    have longer := setField_length name value d.fields
    change result.fields.length ≤ (setField name value d.fields).length + count at length
    refine ⟨by omega, ?_⟩
    rwa [Nat.add_assoc, Nat.add_assoc] at found

theorem readDocument_uses {readValue : Cursor → Reply Value}
    (each : Uses readValue (Value.ReadFrom limits room)) :
    Uses (readDocument limits readValue) fun d used =>
      d.DistinctNames ∧ (d.fields.length ≤ maxFields ∧ FieldsWithin limits room d.fields) ∧
        d.form.length ≤ used := by
  -- The number of fields that are left is written in no more bytes than the number announced.
  have start : FieldsReadFrom limits room .empty 0 :=
    ⟨Document.empty_distinctNames, trivial, Nat.le_refl _⟩
  apply (readLength_uses maxFields "field_count").andThen
  rintro count here ⟨allowed, count_short⟩
  refine (readFields_uses each count start).weaken ?_
  rintro d more ⟨length, found⟩
  have fewer : d.fields.length ≤ count := Nat.le_trans length (Nat.le_of_eq (Nat.zero_add _))
  have announced := varint_length_mono fewer
  have fields := found.short
  refine ⟨found.distinct, ⟨Nat.le_trans fewer allowed, found.within⟩, ?_⟩
  rw [Document.form, List.length_append]
  omega

theorem readInt32_uses : Uses readInt32 fun value used => value.ReadFrom limits room (used + 1) := by
  apply (readSigned_uses "int32").andThen
  rintro number used ⟨-, short⟩
  by_cases range : Int32.minValue.toInt ≤ number ∧ number ≤ Int32.maxValue.toInt
  · simp only [if_pos range]
    have same : (Int32.ofInt number).toInt = number := by
      apply Int32.toInt_ofInt_of_le
      · exact range.1
      · exact Int.lt_add_one_of_le range.2
    refine Uses.done ⟨trivial, trivial, ?_⟩
    simp only [Value.form, same, List.length_cons]
    omega
  · simp only [if_neg range]
    exact Uses.failed _

theorem readInt64_uses :
    Uses (fun cursor => (Cursor.readSigned "int64" cursor).map fun number =>
      Value.int64 (Int64.ofInt number)) fun value used =>
        value.ReadFrom limits room (used + 1) := by
  apply Uses.map
  refine (readSigned_uses "int64").weaken ?_
  rintro number used ⟨⟨low, high⟩, short⟩
  have same : (Int64.ofInt number).toInt = number := Int64.toInt_ofInt_of_le low high
  refine ⟨trivial, trivial, ?_⟩
  simp only [Value.form, same, List.length_cons]
  omega

theorem readPayload_uses {room : Nat}
    (inner : ∀ readInner, innerReader? limits room = some readInner →
      Uses readInner (Value.ReadFrom limits (room - 1))) (tag : Tag) :
    Uses (readPayload limits (innerReader? limits room) tag) fun value used =>
      value.ReadFrom limits room (used + 1) := by
  cases tag with
  | null => exact Uses.done ⟨trivial, trivial, Nat.le_refl 1⟩
  | bool =>
    apply Uses.map
    refine (readBool_uses "bool").weaken ?_
    rintro flag used rfl
    exact ⟨trivial, trivial, Nat.le_refl 2⟩
  | int32 => exact readInt32_uses
  | int64 => exact readInt64_uses
  | string =>
    apply Uses.map
    refine (readString_uses limits.stringLength "string").weaken ?_
    rintro text used ⟨allowed, short⟩
    exact ⟨trivial, allowed, Nat.succ_le_succ short⟩
  | array =>
    cases room with
    | zero => exact Uses.failed _
    | succ room =>
      apply (readLength_uses limits.arrayLength "array_len").andThen
      rintro count here ⟨allowed, count_short⟩
      apply Uses.map
      refine (readMany_uses (inner _ rfl) count []).weaken ?_
      rintro items more ⟨found, same, length, read⟩
      rw [List.reverse_nil, List.nil_append] at same
      subst same
      rw [← length] at allowed count_short
      have short := read.short
      refine ⟨read.distinct, ⟨Nat.succ_pos room, allowed, read.within⟩, ?_⟩
      rw [Value.form, List.length_cons, List.length_append]
      omega
  | document =>
    cases room with
    | zero => exact Uses.failed _
    | succ room =>
      apply Uses.map
      refine (readDocument_uses (inner _ rfl)).weaken ?_
      rintro d used ⟨distinct, ⟨count, within⟩, short⟩
      exact ⟨distinct, ⟨Nat.succ_pos room, count, within⟩, Nat.succ_le_succ short⟩

theorem readValue_eq (limits : Limits) (room : Nat) :
    readValue limits room =
      fun cursor => (readTag cursor).andThen (readPayload limits (innerReader? limits room)) := by
  cases room <;> rfl

theorem readValue_uses (limits : Limits) (room : Nat) :
    Uses (readValue limits room) (Value.ReadFrom limits room) := by
  -- By induction on how many containers may be nested: the values inside one are read with one less
  -- to spare.
  induction room with
  | zero =>
    rw [readValue_eq]
    apply readTag_uses.andThen
    rintro tag used rfl
    refine (readPayload_uses (fun readInner found => ?_) tag).weaken ?_
    · cases found
    · intro value more read
      rwa [Nat.add_comm more] at read
  | succ room ih =>
    rw [readValue_eq]
    apply readTag_uses.andThen
    rintro tag used rfl
    refine (readPayload_uses (fun readInner found => ?_) tag).weaken ?_
    · cases found
      exact ih
    · intro value more read
      rwa [Nat.add_comm more] at read

end

@[simp] theorem formHeader_length : formHeader.length = 5 := rfl

theorem Document.bytes_length (d : Document) : d.bytes.length = 5 + d.form.length := by
  rw [Document.bytes_eq, List.length_append, formHeader_length]

/-- A document that is read from plain bytes is within the limits, and it is written in no more
    bytes. -/
theorem decodePlain_accepted {limits : Limits} {input : Bytes} {d : Document}
    (accepted : decodePlain limits input = .ok d) :
    d.DistinctNames ∧ d.Within limits ∧ d.bytes.length ≤ input.length ∧
      input.length ≤ limits.documentSize := by
  unfold decodePlain at accepted
  split at accepted
  · cases accepted
  · rename_i magic
    split at accepted
    · cases accepted
    · rename_i small
      split at accepted
      · cases accepted
      · rename_i version next first
        split at accepted
        · cases accepted
        · split at accepted
          · cases accepted
          · rename_i found stop body
            split at accepted
            · rename_i finished
              cases accepted
              obtain ⟨one, version_counted, rfl⟩ := readByte_uses "version" _ _ _ first
              obtain ⟨used, counted, distinct, within, short⟩ :=
                readDocument_uses (readValue_uses limits limits.depth) _ _ _ body
              have marked : 4 ≤ input.length := by
                have front := List.isPrefixOf_iff_prefix.mp (Bool.not_eq_false _ ▸ magic)
                exact front.length_le
              have behind : (Cursor.start (input.drop plainMagic.length)).rest.length =
                  input.length - 4 := List.length_drop
              refine ⟨distinct, within, ?_, Nat.not_lt.mp small⟩
              rw [finished, List.length_nil] at counted
              rw [Document.bytes_length]
              omega
            · cases accepted

def plainBytes (method : Compression) (input : Bytes) : Except ReadFault Bytes :=
  if isPacked input then decompress method input else .ok input

theorem readLength_loose {strict loose : Nat} (looser : strict ≤ loose) {part : String}
    {cursor next : Cursor} {length : Nat}
    (read : cursor.readLength strict part = .done length next) :
    cursor.readLength loose part = .done length next := by
  unfold Cursor.readLength at read ⊢
  cases found : cursor.readVarint part with
  | failed fault stop =>
    rw [found] at read
    cases read
  | done n stop =>
    simp only [found, Reply.andThen_done] at read ⊢
    split at read
    · cases read
    · rename_i allowed
      rw [if_neg (by omega)]
      exact read

theorem unpackSized_loose {method : Compression} {strict loose : Limits} {input bytes : Bytes}
    (looser : strict.documentSize ≤ loose.documentSize)
    (unpacked : unpackSized method strict input = .ok bytes) :
    unpackSized method loose input = .ok bytes := by
  unfold unpackSized at unpacked
  split at unpacked
  · cases unpacked
  · rename_i size next read
    have again := readLength_loose looser read
    simp only [unpackSized, again]
    exact unpacked

/-- Behind an accepted input there are plain bytes that are accepted. Under the caps they are what
    the input is unpacked to without limits. -/
theorem decode_accepted {method : Compression} {limits : Limits} {input : Bytes} {d : Document}
    (accepted : decode method limits input = .ok d) :
    ∃ plain, decodePlain limits plain = .ok d ∧
      (limits ≤ .caps → plainBytes method input = .ok plain) := by
  unfold decode at accepted
  split at accepted
  · cases accepted
  · split at accepted
    · rename_i packed
      split at accepted
      · cases accepted
      · rename_i plain unpacked
        refine ⟨plain, accepted, fun capped => ?_⟩
        have long : packedMagic.length ≤ input.length :=
          (List.isPrefixOf_iff_prefix.mp packed).length_le
        rw [plainBytes, if_pos packed, decompress, if_neg (Nat.not_lt.mpr long), if_pos packed]
        exact unpackSized_loose capped.1 unpacked
    · rename_i unmarked
      exact ⟨input, accepted, fun _ => if_neg unmarked⟩

theorem Limits.capped_eq_self {limits : Limits} (capped : limits ≤ caps) :
    limits.capped = limits := by
  obtain ⟨size, string, array, depth⟩ := capped
  simp only [Limits.capped, Nat.min_eq_left size, Nat.min_eq_left string, Nat.min_eq_left array,
    Nat.min_eq_left depth]

/-- Whatever is accepted is a document within the limits. Unless these exceed the caps, it is
    written again, in the fewest bytes from which it can be read. -/
theorem accepted_bytes_rewrite (method : Compression) (limits : Limits) (input : Bytes)
    (d : Document) (accepted : decode method limits input = .ok d) :
    d.DistinctNames ∧ d.Within limits ∧
      (limits ≤ .caps → ∃ plain bytes, plainBytes method input = .ok plain ∧
        encode limits d = .ok bytes ∧ bytes.length ≤ plain.length ∧
        decode method limits bytes = .ok d) := by
  obtain ⟨plain, read, unpacked⟩ := decode_accepted accepted
  obtain ⟨distinct, within, short, small⟩ := decodePlain_accepted read
  refine ⟨distinct, within, fun capped => ?_⟩
  have written : encode limits d = .ok d.bytes := by
    apply encode_eq_ok_iff.mpr
    rw [Limits.capped_eq_self capped]
    exact ⟨within, Nat.le_trans short small, rfl⟩
  exact ⟨plain, d.bytes, unpacked capped, written, short, decode_of_encode method distinct written⟩

/-- Two fields of one name; their number and the length of the first name are written in two bytes
    each. -/
def overlongSample : Bytes :=
  plainMagic ++ [1, 0x82, 0, 0x81, 0, 97, Tag.null.byte, 1, 97, Tag.bool.byte, 1]

def overlongSampleLimits : Limits := ⟨15, 1, 0, 0⟩

def overlongPacked : Bytes :=
  packedForm overlongSample (Frame.writeBlocks Frame.header.toArray overlongSample).toList

theorem overlong_sample_rewrites :
    decode storedFrames overlongSampleLimits overlongPacked = .ok ⟨[("a", .bool true)]⟩ ∧
      overlongSampleLimits ≤ .caps ∧
      ∃ plain bytes, plainBytes storedFrames overlongPacked = .ok plain ∧
        encode overlongSampleLimits ⟨[("a", .bool true)]⟩ = .ok bytes ∧
        bytes.length ≤ plain.length ∧
        decode storedFrames overlongSampleLimits bytes = .ok ⟨[("a", .bool true)]⟩ := by
  have capped : overlongSampleLimits ≤ .caps := by
    refine ⟨?_, ?_, ?_, ?_⟩ <;> decide
  have small : overlongSample.length ≤ overlongSampleLimits.documentSize := by decide
  obtain ⟨whole, intact⟩ := storedFrames_faithful 0 overlongSample _ rfl
  have unpacked := unpackSized_honest small (by decide) whole intact
  have accepted : decode storedFrames overlongSampleLimits overlongPacked =
      .ok ⟨[("a", .bool true)]⟩ := by
    rw [overlongPacked, decode_packed unpacked]
    rfl
  exact ⟨accepted, capped, (accepted_bytes_rewrite _ _ _ _ accepted).2.2 capped⟩

end EntityCatalog
