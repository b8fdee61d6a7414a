import EntityCatalog.Proofs.Wire.Primitives
import EntityCatalog.Wire.Encoding

/- The stored form of a document as one list of bytes, and the documents that are within limits,
   both by recursion on the values. Writing appends exactly the form, and the check in front of it
   finds no fault exactly for what is within the limits. -/
namespace EntityCatalog

mutual

def Value.form : Value → Bytes
  | .null => [Tag.null.byte]
  | .bool flag => [Tag.bool.byte, boolByte flag]
  | .int32 number => Tag.int32.byte :: varint (zigzag number.toInt)
  | .int64 number => Tag.int64.byte :: varint (zigzag number.toInt)
  | .string text => Tag.string.byte :: textForm text
  | .array items => Tag.array.byte :: (varint items.length ++ itemsForm items)
  | .document fields => Tag.document.byte :: (varint fields.length ++ fieldsForm fields)

def itemsForm : List Value → Bytes
  | [] => []
  | item :: rest => item.form ++ itemsForm rest

def fieldsForm : List (String × Value) → Bytes
  | [] => []
  | (name, value) :: rest => textForm name ++ (value.form ++ fieldsForm rest)

end

@[simp] theorem itemsForm_nil : itemsForm [] = [] := rfl

@[simp] theorem itemsForm_cons (item : Value) (rest : List Value) :
    itemsForm (item :: rest) = item.form ++ itemsForm rest := rfl

@[simp] theorem fieldsForm_nil : fieldsForm [] = [] := rfl

@[simp] theorem fieldsForm_cons (field : String × Value) (rest : List (String × Value)) :
    fieldsForm (field :: rest) = textForm field.1 ++ (field.2.form ++ fieldsForm rest) := rfl

def Document.form (d : Document) : Bytes := varint d.fields.length ++ fieldsForm d.fields

def formHeader : Bytes := plainMagic ++ [currentFormat]

mutual

theorem Value.write_eq (out : Output) (value : Value) :
    (value.write out).toList = out.toList ++ value.form := by
  cases value with
  | null => simp [Value.write, Value.form]
  | bool flag => simp [Value.write, Value.form]
  | int32 number => simp [Value.write, Value.form]
  | int64 number => simp [Value.write, Value.form]
  | string text => simp [Value.write, Value.form]
  | array items => simp [Value.write, Value.form, writeItems_eq _ items]
  | document fields => simp [Value.write, Value.form, writeFields_eq _ fields]

theorem writeItems_eq (out : Output) (items : List Value) :
    (writeItems out items).toList = out.toList ++ itemsForm items := by
  cases items with
  | nil => simp [writeItems]
  | cons item rest => simp [writeItems, writeItems_eq _ rest, Value.write_eq _ item]

theorem writeFields_eq (out : Output) (fields : List (String × Value)) :
    (writeFields out fields).toList = out.toList ++ fieldsForm fields := by
  cases fields with
  | nil => simp [writeFields]
  | cons field rest =>
    obtain ⟨name, value⟩ := field
    simp [writeFields, writeFields_eq _ rest, Value.write_eq _ value]

end

theorem Document.bytes_eq (d : Document) : d.bytes = formHeader ++ d.form := by
  simp [Document.bytes, Document.write, writeFields_eq, Document.form, formHeader]

mutual

/-- Within the limits, where at most `room` containers may be nested. -/
def Value.Within (limits : Limits) (room : Nat) : Value → Prop
  | .string text => text.utf8ByteSize ≤ limits.stringLength
  | .array items =>
      0 < room ∧ items.length ≤ limits.arrayLength ∧ ItemsWithin limits (room - 1) items
  | .document fields =>
      0 < room ∧ fields.length ≤ maxFields ∧ FieldsWithin limits (room - 1) fields
  | _ => True

def ItemsWithin (limits : Limits) (room : Nat) : List Value → Prop
  | [] => True
  | item :: rest => item.Within limits room ∧ ItemsWithin limits room rest

def FieldsWithin (limits : Limits) (room : Nat) : List (String × Value) → Prop
  | [] => True
  | (name, value) :: rest =>
      name.utf8ByteSize ≤ limits.stringLength ∧
        (value.Within limits room ∧ FieldsWithin limits room rest)

end

def Document.Within (limits : Limits) (d : Document) : Prop :=
  d.fields.length ≤ maxFields ∧ FieldsWithin limits limits.depth d.fields

@[simp] theorem lengthFault?_eq_none (part : String) {length limit : Nat} :
    lengthFault? part length limit = none ↔ length ≤ limit := by
  unfold lengthFault?
  split <;> simp <;> omega

mutual

theorem Value.fault?_eq_none {limits : Limits} {room : Nat} (value : Value) :
    value.fault? limits room = none ↔ value.Within limits room := by
  cases value with
  | null => simp [Value.fault?, Value.Within]
  | bool flag => simp [Value.fault?, Value.Within]
  | int32 number => simp [Value.fault?, Value.Within]
  | int64 number => simp [Value.fault?, Value.Within]
  | string text => simp [Value.fault?, Value.Within]
  | array items =>
    cases room with
    | zero => simp [Value.fault?, Value.Within]
    | succ room =>
      simp only [Value.fault?, Value.Within, Nat.zero_lt_succ, true_and, Nat.add_sub_cancel]
      rw [← itemsFault?_eq_none items, ← lengthFault?_eq_none "array_len"]
      split <;> simp_all
  | document fields =>
    cases room with
    | zero => simp [Value.fault?, Value.Within]
    | succ room =>
      simp only [Value.fault?, Value.Within, Nat.zero_lt_succ, true_and, Nat.add_sub_cancel]
      rw [← fieldsFault?_eq_none fields, ← lengthFault?_eq_none "field_count"]
      split <;> simp_all

theorem itemsFault?_eq_none {limits : Limits} {room : Nat} (items : List Value) :
    itemsFault? limits room items = none ↔ ItemsWithin limits room items := by
  cases items with
  | nil => simp [itemsFault?, ItemsWithin]
  | cons item rest =>
    simp only [itemsFault?, ItemsWithin]
    rw [← Value.fault?_eq_none item, ← itemsFault?_eq_none rest]
    split <;> simp_all

theorem fieldsFault?_eq_none {limits : Limits} {room : Nat} (fields : List (String × Value)) :
    fieldsFault? limits room fields = none ↔ FieldsWithin limits room fields := by
  cases fields with
  | nil => simp [fieldsFault?, FieldsWithin]
  | cons field rest =>
    obtain ⟨name, value⟩ := field
    simp only [fieldsFault?, FieldsWithin]
    rw [← Value.fault?_eq_none value, ← fieldsFault?_eq_none rest,
      ← lengthFault?_eq_none "field_name"]
    split
    · simp_all
    · split <;> simp_all

end

theorem Document.fault?_eq_none {limits : Limits} {d : Document} :
    d.fault? limits = none ↔ d.Within limits := by
  unfold Document.fault? Document.Within
  rw [← fieldsFault?_eq_none, ← lengthFault?_eq_none "field_count"]
  split <;> simp_all

/-- What is written is the form of a document within the limits and the caps. -/
theorem encode_eq_ok_iff {limits : Limits} {d : Document} {bytes : Bytes} :
    encode limits d = .ok bytes ↔
      d.Within limits.capped ∧ d.bytes.length ≤ limits.capped.documentSize ∧ d.bytes = bytes := by
  rw [← Document.fault?_eq_none, ← lengthFault?_eq_none "document"]
  unfold encode
  split
  · simp_all
  · split <;> simp_all

end EntityCatalog
