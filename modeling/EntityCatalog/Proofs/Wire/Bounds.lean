import EntityCatalog.Proofs.Wire.Accepted
import EntityCatalog.Proofs.Wire.Writing

/- What the limits say of a document and of all the values inside it, and the number of bytes that it
   takes, both without regard to how it is written. The writer goes through the values with a
   depth; here every value has one by where it stands. -/
namespace EntityCatalog

/-- A value inside a document, and how many arrays and documents it stands in below the document
    itself. -/
inductive Document.Holds (d : Document) : Nat → Value → Prop
  | field {name : String} {value : Value} : (name, value) ∈ d.fields → d.Holds 0 value
  | item {depth : Nat} {items : List Value} {item : Value} :
      d.Holds depth (.array items) → item ∈ items → d.Holds (depth + 1) item
  | inner {depth : Nat} {fields : List (String × Value)} {name : String} {value : Value} :
      d.Holds depth (.document fields) → (name, value) ∈ fields → d.Holds (depth + 1) value

def Document.HasFields (d : Document) (fields : List (String × Value)) : Prop :=
  fields = d.fields ∨ ∃ depth, d.Holds depth (.document fields)

def Value.isContainer : Value → Bool
  | .array _ => true
  | .document _ => true
  | _ => false

/-- The bytes of the shortest varint: as many as there are groups of seven bits, and one for zero. -/
def varintSize (n : Nat) : Nat := n.log2 / 7 + 1

def textSize (text : String) : Nat := varintSize text.utf8ByteSize + text.utf8ByteSize

mutual

def Value.storedSize : Value → Nat
  | .null => 1
  | .bool _ => 1 + 1
  | .int32 number => 1 + varintSize (zigzag number.toInt)
  | .int64 number => 1 + varintSize (zigzag number.toInt)
  | .string text => 1 + textSize text
  | .array items => 1 + (varintSize items.length + itemsSize items)
  | .document fields => 1 + (varintSize fields.length + fieldsSize fields)

def itemsSize : List Value → Nat
  | [] => 0
  | item :: rest => item.storedSize + itemsSize rest

def fieldsSize : List (String × Value) → Nat
  | [] => 0
  | (name, value) :: rest => textSize name + (value.storedSize + fieldsSize rest)

end

def Document.storedSize (d : Document) : Nat :=
  5 + (varintSize d.fields.length + fieldsSize d.fields)

/-- All that the limits ask for. An array or a document is one deeper than what it stands in. -/
structure Document.Bounded (limits : Limits) (d : Document) : Prop where
  names : ∀ fields, d.HasFields fields → ∀ field ∈ fields,
    field.1.utf8ByteSize ≤ limits.stringLength
  texts : ∀ depth text, d.Holds depth (.string text) → text.utf8ByteSize ≤ limits.stringLength
  arrays : ∀ depth items, d.Holds depth (.array items) → items.length ≤ limits.arrayLength
  counts : ∀ fields, d.HasFields fields → fields.length ≤ maxFields
  nesting : ∀ depth value, d.Holds depth value → value.isContainer → depth + 1 ≤ limits.depth
  size : d.storedSize ≤ limits.documentSize

/-! ### Sizes -/

theorem varintSize_le_iff {n k : Nat} : varintSize n ≤ k ↔ 0 < k ∧ n >>> (7 * k) = 0 := by
  -- The groups after the first `k` are empty, and there is at least one group.
  unfold varintSize
  by_cases zero : n = 0
  · rw [zero, Nat.log2_zero, Nat.zero_shiftRight]
    omega
  · rw [Nat.shiftRight_eq_div_pow, Nat.div_eq_zero_iff_lt (Nat.two_pow_pos _), ← Nat.log2_lt zero]
    omega

theorem varint_length_le_iff {n k : Nat} :
    (varint n).length ≤ k ↔ 0 < k ∧ n >>> (7 * k) = 0 := by
  induction k generalizing n with
  | zero =>
    rw [varint]
    split <;> simp
  | succ k ih =>
    have group : n >>> 7 = n / 128 := Nat.shiftRight_eq_div_pow n 7
    rw [Nat.mul_succ, Nat.add_comm (7 * k), Nat.shiftRight_add, group]
    by_cases small : n < 128
    · rw [varint_small small, Nat.div_eq_of_lt small, Nat.zero_shiftRight]
      omega
    · rw [varint_large (Nat.not_lt.mp small), Nat.succ_le_succ_iff, ih]
      have more : k = 0 → (n / 128) >>> (7 * k) ≠ 0 := by
        rintro rfl
        rw [Nat.mul_zero, Nat.shiftRight_zero]
        omega
      omega

theorem varint_length (n : Nat) : (varint n).length = varintSize n := by
  apply Nat.le_antisymm
  · exact varint_length_le_iff.mpr (varintSize_le_iff.mp (Nat.le_refl _))
  · exact varintSize_le_iff.mpr (varint_length_le_iff.mp (Nat.le_refl _))

theorem textForm_size (text : String) : (textForm text).length = textSize text := by
  rw [textForm_length, varint_length, textSize]

mutual

theorem Value.form_length (value : Value) : value.form.length = value.storedSize := by
  cases value with
  | null => rfl
  | bool flag => rfl
  | int32 number =>
    rw [Value.form, Value.storedSize, List.length_cons, varint_length, Nat.add_comm]
  | int64 number =>
    rw [Value.form, Value.storedSize, List.length_cons, varint_length, Nat.add_comm]
  | string text =>
    rw [Value.form, Value.storedSize, List.length_cons, textForm_size, Nat.add_comm]
  | array items =>
    rw [Value.form, Value.storedSize, List.length_cons, List.length_append, varint_length,
      itemsForm_length items, Nat.add_comm]
  | document fields =>
    rw [Value.form, Value.storedSize, List.length_cons, List.length_append, varint_length,
      fieldsForm_length fields, Nat.add_comm]

theorem itemsForm_length (items : List Value) : (itemsForm items).length = itemsSize items := by
  cases items with
  | nil => rfl
  | cons item rest =>
    rw [itemsForm_cons, itemsSize, List.length_append, Value.form_length item, itemsForm_length rest]

theorem fieldsForm_length (fields : List (String × Value)) :
    (fieldsForm fields).length = fieldsSize fields := by
  cases fields with
  | nil => rfl
  | cons field rest =>
    obtain ⟨name, value⟩ := field
    rw [fieldsForm_cons, fieldsSize, List.length_append, List.length_append, textForm_size,
      Value.form_length value, fieldsForm_length rest]

end

theorem Document.bytes_size (d : Document) : d.bytes.length = d.storedSize := by
  rw [Document.bytes_length, Document.form, List.length_append, varint_length, fieldsForm_length,
    Document.storedSize]

/-! ### Every value at its depth -/

theorem itemsWithin_iff {limits : Limits} {room : Nat} {items : List Value} :
    ItemsWithin limits room items ↔ ∀ item ∈ items, item.Within limits room := by
  induction items with
  | nil => simp [ItemsWithin]
  | cons item rest ih => simp [ItemsWithin, ih]

section
variable {limits : Limits} {d : Document}

theorem Document.Within.held {depth : Nat} {value : Value} (within : d.Within limits)
    (held : d.Holds depth value) : value.Within limits (limits.depth - depth) := by
  -- By induction on where the value stands: what is inside a container has one less to spare.
  induction held with
  | field member => exact (fieldsWithin_iff.mp within.2 _ member).2
  | item _ member ih =>
    obtain ⟨-, -, items⟩ := ih
    rw [Nat.sub_sub] at items
    exact itemsWithin_iff.mp items _ member
  | inner _ member ih =>
    obtain ⟨-, -, fields⟩ := ih
    rw [Nat.sub_sub] at fields
    exact (fieldsWithin_iff.mp fields _ member).2

theorem Document.Within.fields {fields : List (String × Value)} (within : d.Within limits)
    (held : d.HasFields fields) :
    fields.length ≤ maxFields ∧ ∀ field ∈ fields, field.1.utf8ByteSize ≤ limits.stringLength := by
  rcases held with rfl | ⟨depth, inside⟩
  · exact ⟨within.1, fun field member => (fieldsWithin_iff.mp within.2 field member).1⟩
  · obtain ⟨-, count, fields_within⟩ := within.held inside
    exact ⟨count, fun field member => (fieldsWithin_iff.mp fields_within field member).1⟩

theorem Document.Within.bounded (within : d.Within limits)
    (size : d.storedSize ≤ limits.documentSize) : d.Bounded limits where
  names fields held := (within.fields held).2
  texts depth text held := within.held held
  arrays depth items held := (within.held held).2.1
  counts fields held := (within.fields held).1
  nesting depth value held container := by
    have inside := within.held held
    cases value with
    | array items => exact Nat.sub_pos_iff_lt.mp inside.1
    | document fields => exact Nat.sub_pos_iff_lt.mp inside.1
    | _ => cases container
  size := size

mutual

theorem Document.Bounded.value_within (bounded : d.Bounded limits) {depth : Nat} (value : Value)
    (held : d.Holds depth value) : value.Within limits (limits.depth - depth) := by
  cases value with
  | null => trivial
  | bool flag => trivial
  | int32 number => trivial
  | int64 number => trivial
  | string text => exact bounded.texts depth text held
  | array items =>
    have room := bounded.nesting depth _ held rfl
    refine ⟨by omega, bounded.arrays depth items held, ?_⟩
    rw [Nat.sub_sub]
    exact bounded.items_within items fun item member => held.item member
  | document fields =>
    have room := bounded.nesting depth _ held rfl
    refine ⟨by omega, bounded.counts fields (Or.inr ⟨depth, held⟩), ?_⟩
    rw [Nat.sub_sub]
    exact bounded.fields_within fields (bounded.names fields (Or.inr ⟨depth, held⟩))
      fun field member => held.inner member

theorem Document.Bounded.items_within (bounded : d.Bounded limits) {depth : Nat}
    (items : List Value) (held : ∀ item ∈ items, d.Holds depth item) :
    ItemsWithin limits (limits.depth - depth) items := by
  cases items with
  | nil => trivial
  | cons item rest =>
    obtain ⟨first, others⟩ := List.forall_mem_cons.mp held
    exact ⟨bounded.value_within item first, bounded.items_within rest others⟩

theorem Document.Bounded.fields_within (bounded : d.Bounded limits) {depth : Nat}
    (fields : List (String × Value))
    (names : ∀ field ∈ fields, field.1.utf8ByteSize ≤ limits.stringLength)
    (held : ∀ field ∈ fields, d.Holds depth field.2) :
    FieldsWithin limits (limits.depth - depth) fields := by
  cases fields with
  | nil => trivial
  | cons field rest =>
    obtain ⟨name, value⟩ := field
    obtain ⟨short, others_short⟩ := List.forall_mem_cons.mp names
    obtain ⟨first, others⟩ := List.forall_mem_cons.mp held
    exact ⟨short, bounded.value_within value first, bounded.fields_within rest others_short others⟩

end

theorem Document.bounded_iff : d.Bounded limits ↔
    d.Within limits ∧ d.bytes.length ≤ limits.documentSize := by
  rw [Document.bytes_size]
  constructor
  · intro bounded
    have root : d.HasFields d.fields := Or.inl rfl
    exact ⟨⟨bounded.counts _ root, bounded.fields_within d.fields (bounded.names _ root)
      fun field member => .field member⟩, bounded.size⟩
  · rintro ⟨within, size⟩
    exact within.bounded size

end

/-- A document is written exactly if it is within the limits, each of them no more than its cap.
    What is written has the size that was counted. -/
theorem written_iff_bounded (limits : Limits) (d : Document) :
    ((∃ bytes, encodeChecked limits d = .ok bytes) ↔ d.Bounded limits.capped) ∧
      ∀ bytes, encodeChecked limits d = .ok bytes → bytes.length = d.storedSize := by
  rw [encodeChecked_eq_encode]
  constructor
  · rw [Document.bounded_iff]
    constructor
    · rintro ⟨bytes, written⟩
      obtain ⟨within, small, -⟩ := encode_eq_ok_iff.mp written
      exact ⟨within, small⟩
    · rintro ⟨within, small⟩
      exact ⟨d.bytes, encode_eq_ok_iff.mpr ⟨within, small, rfl⟩⟩
  · intro bytes written
    obtain ⟨-, -, rfl⟩ := encode_eq_ok_iff.mp written
    exact d.bytes_size

/-- A document that comes up to each of the limits below, and past any that is one less. -/
def edgeSample : Document := ⟨[("a", .array [.document [("b", .string "c")]])]⟩

example : encodeChecked ⟨17, 1, 1, 2⟩ edgeSample =
    .ok [67, 68, 79, 67, 1, 1, 1, 97, 5, 1, 6, 1, 1, 98, 4, 1, 99] := by cbv

example : [⟨16, 1, 1, 2⟩, ⟨17, 0, 1, 2⟩, ⟨17, 1, 0, 2⟩, ⟨17, 1, 1, 1⟩].map
      (encodeChecked · edgeSample) =
    [.error (.tooLong "document" 17 16), .error (.tooLong "field_name" 1 0),
      .error (.tooLong "array_len" 1 0), .error (.nestedTooDeep 1)] := by cbv

end EntityCatalog
