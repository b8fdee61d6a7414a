import EntityCatalog.Proofs.Wire.Primitives
import EntityCatalog.Wire.Primitives
import EntityCatalog.Wire.Indexed
import Mathlib.Data.List.Forall2

/- Whatever primitive values are written to one output, reads that ask for them in the same order
   find them again. Each value takes up its own bytes and no others, whatever stands behind them. In
   words, shifts and single bits compute what division and remainder do, folding and unfolding undo
   each other, and ten bytes have room for the groups of every number. -/
namespace EntityCatalog

section
open List (Forall₂)

namespace Primitive

/-- The numbers are those of words of 64 bits, and so is the length of a text. -/
def InWords : Primitive → Prop
  | .varint n => n < UInt64.size
  | .signed n => -9223372036854775808 ≤ n ∧ n < 9223372036854775808
  | .string text => text.utf8ByteSize < UInt64.size
  | _ => True

instance : DecidablePred InWords
  | .varint _ => inferInstanceAs (Decidable (_ < _))
  | .signed _ => inferInstanceAs (Decidable (_ ∧ _))
  | .string _ => inferInstanceAs (Decidable (_ < _))
  | .byte _ | .bytes _ | .bool _ => inferInstanceAs (Decidable True)

def form : Primitive → Bytes
  | .byte value => [value]
  | .bytes data => data
  | .bool flag => [boolByte flag]
  | .varint n => EntityCatalog.varint n
  | .signed n => EntityCatalog.varint (zigzag n)
  | .string text => textForm text

end Primitive

inductive Reading.AsksFor : Reading → Primitive → Prop where
  | byte (reading : String) (value : UInt8) : AsksFor (.byte reading) (.byte value)
  | bytes (reading : String) (data : Bytes) : AsksFor (.bytes data.length reading) (.bytes data)
  | bool (reading : String) (flag : Bool) : AsksFor (.bool reading) (.bool flag)
  | varint (reading : String) (n : Nat) : AsksFor (.varint reading) (.varint n)
  | signed (reading : String) (n : Int) : AsksFor (.signed reading) (.signed n)
  | length {limit n : Nat} (part : String) (allowed : n ≤ limit) :
      AsksFor (.length limit part) (.varint n)
  | string {limit : Nat} {text : String} (part : String) (allowed : text.utf8ByteSize ≤ limit) :
      AsksFor (.string limit part) (.string text)

theorem Output.primitive_eq (out : Output) (value : Primitive) :
    (out.primitive value).toList = out.toList ++ value.form := by
  cases value with
  | byte value => simp [Output.primitive, Primitive.form]
  | bytes data => simp [Output.primitive, Primitive.form]
  | bool flag => simp [Output.primitive, Primitive.form]
  | varint n => simp [Output.primitive, Primitive.form]
  | signed n => simp [Output.primitive, Primitive.form]
  | string text => simp [Output.primitive, Primitive.form]

theorem Output.primitives_eq (out : Output) (written : List Primitive) :
    (out.primitives written).toList = out.toList ++ written.flatMap Primitive.form := by
  induction written generalizing out with
  | nil => simp [Output.primitives]
  | cons value rest ih =>
    have after : (out.primitives (value :: rest)) = (out.primitive value).primitives rest := rfl
    rw [after, ih, Output.primitive_eq, List.flatMap_cons, List.append_assoc]

theorem written_take (written : List Primitive) (count : Nat) :
    (Output.primitives #[] written).toList =
      (Output.primitives #[] (written.take count)).toList ++
        (written.drop count).flatMap Primitive.form := by
  rw [Output.primitives_eq, Output.primitives_eq, List.append_assoc, ← List.flatMap_append,
    List.take_append_drop]

theorem primitive_reads_back {reading : Reading} {value : Primitive}
    (asked : reading.AsksFor value) (in_words : value.InWords) :
    Reads (fun cursor => cursor.read reading) value.form value := by
  cases asked with
  | byte reading value => exact (byte_reads_back reading value).map Primitive.byte
  | bytes reading data => exact (bytes_read_back reading data).map Primitive.bytes
  | bool reading flag => exact (bool_reads_back reading flag).map Primitive.bool
  | varint reading n => exact (varint_reads_back reading in_words).map Primitive.varint
  | signed reading n =>
    exact (signed_reads_back reading in_words.1 in_words.2).map Primitive.signed
  | length part allowed => exact (length_reads_back part allowed in_words).map Primitive.varint
  | string part allowed => exact (string_reads_back part allowed in_words).map Primitive.string

theorem primitives_read_back {readings : List Reading} {values : List Primitive}
    (asked : Forall₂ Reading.AsksFor readings values)
    (in_words : ∀ value ∈ values, value.InWords) :
    Reads (fun cursor => cursor.readAll readings) (values.flatMap Primitive.form) values := by
  -- By induction on the values: each read stops where the next value begins.
  induction asked with
  | nil => exact Reads.done []
  | @cons reading value readings values here others ih =>
    have first := primitive_reads_back here (in_words value (by simp))
    have later := ih fun other member => in_words other (by simp [member])
    exact first.andThen (later.map (value :: ·))

theorem written_reads_back {readings : List Reading} {values : List Primitive}
    (asked : Forall₂ Reading.AsksFor readings values)
    (in_words : ∀ value ∈ values, value.InWords) (more : Bytes) (count : Nat) :
    (Cursor.start ((Output.primitives #[] values).toList ++ more)).readAll
        (readings.take count) =
      .done (values.take count)
        ⟨(Output.primitives #[] (values.take count)).size,
          ((Output.primitives #[] values).toList ++ more).drop
            (Output.primitives #[] (values.take count)).size⟩ := by
  have first := primitives_read_back (List.forall₂_take count asked)
    fun value member => in_words value (List.mem_of_mem_take member)
  have form := Output.primitives_eq #[] (values.take count)
  rw [List.nil_append] at form
  rw [written_take values count, List.append_assoc, ← Array.length_toList, List.drop_left, form]
  have read := first 0 ((values.drop count).flatMap Primitive.form ++ more)
  rw [Nat.zero_add] at read
  exact read

end

/-! ### Words -/

theorem signs_toInt (n : Int64) : (n >>> 63).toInt = n.toInt / 9223372036854775808 := by
  have amount : (63 : Int64).toBitVec.smod 64 = 63#64 := by decide
  rw [← Int64.toInt_toBitVec, Int64.toBitVec_shiftRight, amount]
  change (n.toBitVec.sshiftRight 63).toInt = _
  rw [BitVec.toInt_sshiftRight, Int64.toInt_toBitVec, Int.shiftRight_eq_div_pow]
  rfl

theorem signs_of_nonneg {n : Int64} (sign : 0 ≤ n.toInt) : n >>> 63 = 0 := by
  -- Shifted by all its bits but one, a word is made of its sign.
  have signs := signs_toInt n
  have high := n.toInt_lt
  apply Int64.toInt_inj.mp
  rw [signs, Int64.toInt_zero]
  omega

theorem signs_of_neg {n : Int64} (sign : n.toInt < 0) : n >>> 63 = -1 := by
  have signs := signs_toInt n
  have low := n.le_toInt
  have ones : (-1 : Int64).toInt = -1 := by decide
  apply Int64.toInt_inj.mp
  rw [signs, ones]
  omega

theorem doubled_toNat (n : Int64) :
    (n <<< 1).toBitVec.toNat = 2 * n.toBitVec.toNat % 18446744073709551616 := by
  have amount : (1 : Int64).toBitVec.smod 64 = 1#64 := by decide
  rw [Int64.toBitVec_shiftLeft, amount]
  change (n.toBitVec <<< 1).toNat = _
  rw [BitVec.toNat_shiftLeft, Nat.shiftLeft_eq, Nat.mul_comm, Nat.pow_one]

@[simp] theorem zigzagWord_toNat (n : Int64) : (zigzagWord n).toNat = zigzag n.toInt := by
  have low := n.le_toInt
  have high := n.toInt_lt
  have doubled := doubled_toNat n
  have whole := BitVec.toInt_eq_toNat_cond n.toBitVec
  have small := n.toBitVec.isLt
  rw [Int64.toInt_toBitVec] at whole
  unfold zigzagWord zigzag
  rw [← UInt64.toNat_toBitVec, Int64.toBitVec_toUInt64, Int64.toBitVec_xor]
  split
  · rename_i negative
    rw [signs_of_neg negative]
    change ((n <<< 1).toBitVec ^^^ BitVec.allOnes 64).toNat = _
    rw [BitVec.xor_allOnes, BitVec.toNat_not, doubled]
    split at whole <;> omega
  · rename_i nonneg
    rw [signs_of_nonneg (by omega)]
    change ((n <<< 1).toBitVec ^^^ 0#64).toNat = _
    rw [BitVec.xor_zero, doubled]
    split at whole <;> omega

@[simp] theorem unzigzagWord_toInt (k : UInt64) : (unzigzagWord k).toInt = unzigzag k.toNat := by
  have halved : (k >>> 1).toInt64.toBitVec.toNat = k.toNat / 2 := by
    rw [UInt64.toBitVec_toInt64, UInt64.toNat_toBitVec, UInt64.toNat_shiftRight]
    exact Nat.shiftRight_eq_div_pow k.toNat 1
  have bit : (k &&& 1).toNat = k.toNat % 2 := by
    rw [UInt64.toNat_and]
    exact Nat.and_two_pow_sub_one_eq_mod k.toNat 1
  have small := k.toNat_lt
  unfold unzigzagWord unzigzag
  rw [← Int64.toInt_toBitVec, Int64.toBitVec_xor]
  split
  · rename_i even
    have zero : k &&& 1 = 0 := UInt64.toNat_inj.mp (bit.trans even)
    rw [zero]
    change ((k >>> 1).toInt64.toBitVec ^^^ 0#64).toInt = _
    rw [BitVec.xor_zero, BitVec.toInt_eq_toNat_cond, halved]
    split <;> omega
  · rename_i odd
    have low_bit : k.toNat % 2 = 1 := by omega
    have one : k &&& 1 = 1 := UInt64.toNat_inj.mp (bit.trans low_bit)
    rw [one]
    change ((k >>> 1).toInt64.toBitVec ^^^ BitVec.allOnes 64).toInt = _
    rw [BitVec.xor_allOnes, BitVec.toInt_eq_toNat_cond, BitVec.toNat_not, halved]
    split <;> omega

@[simp] theorem unzigzagWord_zigzagWord (n : Int64) : unzigzagWord (zigzagWord n) = n := by
  apply Int64.toInt_inj.mp
  rw [unzigzagWord_toInt, zigzagWord_toNat, unzigzag_zigzag]

@[simp] theorem zigzagWord_unzigzagWord (k : UInt64) : zigzagWord (unzigzagWord k) = k := by
  apply UInt64.toNat_inj.mp
  rw [zigzagWord_toNat, unzigzagWord_toInt, zigzag_unzigzag]

@[simp] theorem group_toNat (n : UInt64) : ((n &&& 127).toUInt8).toNat = n.toNat % 128 := by
  have low : (n &&& 127).toNat = n.toNat % 128 := by
    rw [UInt64.toNat_and]
    exact Nat.and_two_pow_sub_one_eq_mod n.toNat 7
  rw [UInt64.toNat_toUInt8, low]
  omega

@[simp] theorem rest_toNat (n : UInt64) : (n >>> 7).toNat = n.toNat / 128 := by
  rw [UInt64.toNat_shiftRight]
  exact Nat.shiftRight_eq_div_pow n.toNat 7

theorem unmarked_iff (byte : UInt8) : byte &&& 128 = 0 ↔ byte.toNat < 128 := by
  have bits : ∀ bits : BitVec 8, bits &&& 128#8 = 0#8 ↔ bits.toNat < 128 := by decide +kernel
  rw [← UInt8.toBitVec_inj]
  exact bits byte.toBitVec

theorem read_group_toNat (byte : UInt8) : ((byte &&& 127).toUInt64).toNat = byte.toNat % 128 := by
  rw [UInt8.toNat_toUInt64, UInt8.toNat_and]
  exact Nat.and_two_pow_sub_one_eq_mod byte.toNat 7

theorem joined_toNat {result group : UInt64} {count : Nat} (places : 7 * count < 64)
    (low : result.toNat < Nat.pow 128 count)
    (fits : result.toNat + group.toNat * Nat.pow 128 count < UInt64.size) :
    (result ||| group <<< UInt64.ofNat (7 * count)).toNat =
      result.toNat + group.toNat * Nat.pow 128 count := by
  -- Bits that are put above all others are added to them.
  have weight : Nat.pow 128 count = 2 ^ (7 * count) := (Nat.pow_mul 2 7 count).symm
  have amount : (UInt64.ofNat (7 * count)).toNat % 64 = 7 * count := by
    rw [UInt64.toNat_ofNat_of_lt' (Nat.lt_trans places (by decide)), Nat.mod_eq_of_lt places]
  rw [weight] at low fits ⊢
  have whole : group.toNat * 2 ^ (7 * count) < 2 ^ 64 :=
    Nat.lt_of_le_of_lt (Nat.le_add_left _ _) fits
  rw [UInt64.toNat_or, UInt64.toNat_shiftLeft, amount, Nat.shiftLeft_eq, Nat.mod_eq_of_lt whole,
    Nat.or_comm, Nat.mul_comm, ← Nat.two_pow_add_eq_or_of_lt low, Nat.add_comm]

theorem marked_toNat {byte : UInt8} (unmarked : byte.toNat < 128) :
    (byte ||| 128).toNat = byte.toNat + 128 := by
  have joined := Nat.two_pow_add_eq_or_of_lt (i := 7) unmarked 1
  rw [UInt8.toNat_or, Nat.or_comm]
  exact joined.symm.trans (Nat.add_comm 128 byte.toNat)

theorem eq_ofNat {byte : UInt8} {n : Nat} (same : byte.toNat = n) : byte = UInt8.ofNat n := by
  rw [← same, UInt8.ofNat_toNat]

theorem groups?_last (room : Nat) {n : UInt64} (small : n.toNat < 128) :
    groups? (room + 1) n = some [UInt8.ofNat n.toNat] := by
  have group := group_toNat n
  have none_left : n >>> 7 = 0 := UInt64.toNat_inj.mp ((rest_toNat n).trans (Nat.div_eq_of_lt small))
  rw [Nat.mod_eq_of_lt small] at group
  rw [groups?, if_pos none_left, eq_ofNat group]

theorem groups?_more (room : Nat) {n : UInt64} (large : 128 ≤ n.toNat) :
    groups? (room + 1) n =
      (groups? room (n >>> 7)).map (UInt8.ofNat (n.toNat % 128 + 128) :: ·) := by
  have group := group_toNat n
  have rest := rest_toNat n
  have some_left : n >>> 7 ≠ 0 := by
    intro none_left
    rw [none_left, UInt64.toNat_zero] at rest
    omega
  have marked := marked_toNat (by omega : ((n &&& 127).toUInt8).toNat < 128)
  rw [group] at marked
  rw [groups?, if_neg some_left, eq_ofNat marked]

theorem groups?_eq (room : Nat) (n : UInt64) (enough : n.toNat < Nat.pow 128 (room + 1)) :
    groups? (room + 1) n = some (varint n.toNat) := by
  induction room generalizing n with
  | zero =>
    have small : n.toNat < 128 := enough
    rw [groups?_last 0 small, varint, if_pos small]
  | succ room ih =>
    rw [varint]
    split
    · rename_i small
      exact groups?_last (room + 1) small
    · rename_i large
      have fewer : (n >>> 7).toNat < Nat.pow 128 (room + 1) := by
        rw [rest_toNat, Nat.div_lt_iff_lt_mul (by decide)]
        exact enough
      rw [groups?_more _ (Nat.not_lt.mp large), ih _ fewer, Option.map_some, rest_toNat]

theorem groups?_varint (n : UInt64) : groups? maxVarintLength n = some (varint n.toNat) :=
  groups?_eq 9 n (Nat.lt_trans n.toNat_lt (by decide))

namespace Output

theorem varint?_eq (out : Output) (n : UInt64) : out.varint? n = some (out.varint n.toNat) := by
  rw [varint?, groups?_varint]
  rfl

theorem varint?_ofNat (out : Output) {n : Nat} (small : n < UInt64.size) :
    out.varint? (UInt64.ofNat n) = some (out.varint n) := by
  rw [varint?_eq, UInt64.toNat_ofNat_of_lt' small]

theorem signed?_eq (out : Output) (n : Int64) : out.signed? n = some (out.signed n.toInt) := by
  rw [signed?, varint?_eq, zigzagWord_toNat]
  rfl

/-- Whatever a word holds is written as it is written without words. -/
theorem primitive?_eq (out : Output) {value : Primitive} (in_words : value.InWords) :
    out.primitive? value = some (out.primitive value) := by
  cases value with
  | byte value => rfl
  | bytes data => rfl
  | bool flag => rfl
  | varint n => exact out.varint?_ofNat in_words
  | signed n =>
    have same : (Int64.ofInt n).toInt = n := Int64.toInt_ofInt_of_le in_words.1 in_words.2
    rw [primitive?, signed?_eq, same]
    rfl
  | string text =>
    rw [primitive?, string?, out.varint?_ofNat in_words]
    rfl

theorem primitives?_eq (out : Output) {written : List Primitive}
    (in_words : ∀ value ∈ written, value.InWords) :
    written.foldlM primitive? out = some (out.primitives written) := by
  induction written generalizing out with
  | nil => rfl
  | cons value rest ih =>
    obtain ⟨here, others⟩ := List.forall_mem_cons.mp in_words
    rw [List.foldlM_cons, primitive?_eq out here]
    exact ih (out.primitive value) others

end Output

end EntityCatalog
