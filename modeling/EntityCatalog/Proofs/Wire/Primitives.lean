import EntityCatalog.Wire.Primitives

/- Primitive values read back from the bytes that were written for them. A reader is said to read
   bytes as a value when it finds the value at the front of any input that starts with the bytes,
   and stops right behind them; readers in sequence then read the bytes one after the other. What is
   read as a varint, whoever wrote it, holds seven bits of the number in each of at most ten bytes, the
   lowest first, all of them but the last marked. -/
namespace EntityCatalog

section
variable {α β : Type}

def Reads (read : Cursor → Reply α) (bytes : Bytes) (value : α) : Prop :=
  ∀ position rest, read ⟨position, bytes ++ rest⟩ = .done value ⟨position + bytes.length, rest⟩

namespace Reads

theorem andThen {read : Cursor → Reply α} {onward : α → Cursor → Reply β} {first second : Bytes}
    {value : α} {result : β} (here : Reads read first value)
    (after : Reads (onward value) second result) :
    Reads (fun cursor => (read cursor).andThen onward) (first ++ second) result := by
  intro position rest
  have start := here position (second ++ rest)
  have finish := after (position + first.length) rest
  simp only [List.append_assoc, start, Reply.andThen_done, finish, List.length_append, Nat.add_assoc]

theorem map {read : Cursor → Reply α} {bytes : Bytes} {value : α} (f : α → β)
    (here : Reads read bytes value) :
    Reads (fun cursor => (read cursor).map f) bytes (f value) := by
  intro position rest
  simp only [here position rest, Reply.map_done]

theorem done (value : α) : Reads (Reply.done value) [] value := by
  intro position rest
  rfl

theorem check {read : Cursor → Reply α} {onward : α → Cursor → Reply β} {bytes : Bytes}
    {value : α} {result : β} (here : Reads read bytes value)
    (passed : ∀ cursor, onward value cursor = .done result cursor) :
    Reads (fun cursor => (read cursor).andThen onward) bytes result := by
  intro position rest
  simp only [here position rest, Reply.andThen_done, passed]

end Reads

theorem byte_reads_back (reading : String) (byte : UInt8) :
    Reads (Cursor.readByte reading) [byte] byte := by
  intro position rest
  rfl

@[simp] theorem splitExactly_append (data taken rest : Bytes) :
    Cursor.splitExactly data.length taken (data ++ rest) = some (taken.reverse ++ data, rest) := by
  induction data generalizing taken with
  | nil => simp [Cursor.splitExactly]
  | cons byte others ih => simp [Cursor.splitExactly, ih]

theorem bytes_read_back (reading : String) (data : Bytes) :
    Reads (Cursor.readBytes data.length reading) data data := by
  intro position rest
  simp [Cursor.readBytes]

theorem bool_reads_back (reading : String) (flag : Bool) :
    Reads (Cursor.readBool reading) [boolByte flag] flag := by
  intro position rest
  cases flag <;> rfl

theorem toNat_ofNat_of_lt {n : Nat} (small : n < 256) : (UInt8.ofNat n).toNat = n := by
  rw [UInt8.toNat_ofNat']
  exact Nat.mod_eq_of_lt small

theorem continued_group_reads (reading : String) (left weight sum group : Nat) (others : Bytes)
    {value : Nat} (group_lt : group < 128) (bound : sum + group * weight < UInt64.size)
    (onward : Reads (Cursor.readGroups reading left (weight * 128) (sum + group * weight)) others
      value) :
    Reads (Cursor.readGroups reading (left + 1) weight sum)
      (UInt8.ofNat (group + 128) :: others) value := by
  have byte := toNat_ofNat_of_lt (by omega : group + 128 < 256)
  have digit : (group + 128) % 128 = group := by omega
  rw [← List.singleton_append]
  apply (byte_reads_back reading (UInt8.ofNat (group + 128))).andThen
  simpa only [byte, digit, if_neg (Nat.not_le.mpr bound),
    if_neg (by omega : ¬ group + 128 < 128)] using onward

theorem last_group_reads (reading : String) (left weight sum group : Nat)
    (group_lt : group < 128) (bound : sum + group * weight < UInt64.size) :
    Reads (Cursor.readGroups reading (left + 1) weight sum) [UInt8.ofNat group]
      (sum + group * weight) := by
  have byte := toNat_ofNat_of_lt (by omega : group < 256)
  have digit : group % 128 = group := by omega
  apply (byte_reads_back reading (UInt8.ofNat group)).check
  intro cursor
  simp only [byte, digit, if_neg (Nat.not_le.mpr bound), if_pos group_lt]

theorem groups_read_back (reading : String) (left weight sum n : Nat)
    (enough : n < Nat.pow 128 (left + 1)) (bound : sum + n * weight < UInt64.size) :
    Reads (Cursor.readGroups reading (left + 1) weight sum) (varint n) (sum + n * weight) := by
  induction left generalizing weight sum n with
  | zero =>
    have small : n < 128 := enough
    rw [varint, if_pos small]
    exact last_group_reads reading 0 weight sum n small bound
  | succ left ih =>
    rw [varint]
    split
    · rename_i small
      exact last_group_reads reading (left + 1) weight sum n small bound
    · have whole : n * weight = n % 128 * weight + n / 128 * (weight * 128) := by
        conv => lhs; rw [← Nat.mod_add_div n 128, Nat.add_mul]
        congr 1
        rw [Nat.mul_comm 128, Nat.mul_assoc, Nat.mul_comm 128]
      have fewer : n / 128 < Nat.pow 128 (left + 1) := by
        rw [Nat.div_lt_iff_lt_mul (by decide)]
        exact enough
      have total : sum + n % 128 * weight + n / 128 * (weight * 128) = sum + n * weight := by
        omega
      refine continued_group_reads reading (left + 1) weight sum (n % 128) _
        (Nat.mod_lt n (by decide)) (by omega) ?_
      rw [← total]
      exact ih (weight * 128) (sum + n % 128 * weight) (n / 128) fewer (by omega)

theorem varint_reads_back (reading : String) {n : Nat} (bound : n < UInt64.size) :
    Reads (Cursor.readVarint reading) (varint n) n := by
  have enough : n < Nat.pow 128 (9 + 1) := Nat.lt_trans bound (by decide)
  have read := groups_read_back reading 9 1 0 n enough (by omega)
  rw [Nat.mul_one, Nat.zero_add] at read
  exact read

@[simp] theorem unzigzag_zigzag (n : Int) : unzigzag (zigzag n) = n := by
  unfold unzigzag zigzag
  split <;> split <;> omega

@[simp] theorem zigzag_unzigzag (k : Nat) : zigzag (unzigzag k) = k := by
  unfold zigzag unzigzag
  split <;> split <;> omega

theorem zigzag_lt {n : Int} (low : -9223372036854775808 ≤ n) (high : n < 9223372036854775808) :
    zigzag n < UInt64.size := by
  simp only [zigzag, UInt64.size]
  split <;> omega

theorem signed_reads_back (reading : String) {n : Int} (low : -9223372036854775808 ≤ n)
    (high : n < 9223372036854775808) :
    Reads (Cursor.readSigned reading) (varint (zigzag n)) n := by
  have folded := (varint_reads_back reading (zigzag_lt low high)).map unzigzag
  rwa [unzigzag_zigzag] at folded

theorem length_reads_back (part : String) {limit n : Nat} (allowed : n ≤ limit)
    (bound : n < UInt64.size) : Reads (Cursor.readLength limit part) (varint n) n := by
  apply (varint_reads_back part bound).check
  intro cursor
  exact if_neg (Nat.not_lt.mpr allowed)

def textForm (text : String) : Bytes := varint text.utf8ByteSize ++ utf8 text

namespace Output
variable (out : Output)

@[simp] theorem toList_bytes (data : Bytes) : (out.bytes data).toList = out.toList ++ data := by
  simp [bytes]

@[simp] theorem toList_bool (flag : Bool) :
    (out.bool flag).toList = out.toList ++ [boolByte flag] := by
  simp [bool]

@[simp] theorem toList_varint (n : Nat) :
    (out.varint n).toList = out.toList ++ EntityCatalog.varint n := by
  simp [varint]

@[simp] theorem toList_signed (n : Int) :
    (out.signed n).toList = out.toList ++ EntityCatalog.varint (zigzag n) := by
  simp [signed]

@[simp] theorem toList_string (text : String) :
    (out.string text).toList = out.toList ++ textForm text := by
  simp [string, textForm]

end Output

theorem string_reads_back (part : String) {limit : Nat} {text : String}
    (allowed : text.utf8ByteSize ≤ limit) (bound : text.utf8ByteSize < UInt64.size) :
    Reads (Cursor.readString limit part) (textForm text) text := by
  apply (length_reads_back part allowed bound).andThen
  rw [← utf8_length]
  apply (bytes_read_back part (utf8 text)).check
  intro cursor
  rw [ofUtf8?_utf8]

end

/-! ### Varints -/

inductive Groups : Bytes → Nat → Prop where
  | last {byte : UInt8} (unmarked : byte.toNat < 128) : Groups [byte] byte.toNat
  | more {byte : UInt8} {rest : Bytes} {n : Nat} (marked : 128 ≤ byte.toNat)
      (others : Groups rest n) : Groups (byte :: rest) (byte.toNat - 128 + 128 * n)

structure SpellsVarint (bytes : Bytes) (n : Nat) : Prop where
  groups : Groups bytes n
  short : bytes.length ≤ maxVarintLength
  small : n < UInt64.size

theorem groups_weight (group n weight : Nat) :
    (group + 128 * n) * weight = group * weight + n * (weight * 128) := by
  rw [Nat.add_mul, Nat.mul_comm weight, ← Nat.mul_assoc, Nat.mul_comm n]

theorem marked_group {byte : UInt8} (marked : 128 ≤ byte.toNat) :
    byte.toNat % 128 = byte.toNat - 128 := by
  have byte_lt := byte.toNat_lt
  omega

namespace Cursor

theorem groups_read (reading : String) {groups : Bytes} {n left weight sum : Nat}
    (spelled : Groups groups n) (short : groups.length ≤ left)
    (small : sum + n * weight < UInt64.size) :
    Reads (readGroups reading left weight sum) groups (sum + n * weight) := by
  -- By induction on the groups. No sum on the way is above the last one.
  induction spelled generalizing left weight sum with
  | @last byte unmarked =>
    obtain ⟨left, rfl⟩ : ∃ fewer, left = fewer + 1 := ⟨left - 1, by simp at short; omega⟩
    have group : byte.toNat % 128 = byte.toNat := Nat.mod_eq_of_lt unmarked
    apply (byte_reads_back reading byte).check
    intro cursor
    simp only [group, if_neg (Nat.not_le.mpr small), if_pos unmarked]
  | @more byte rest n marked others ih =>
    obtain ⟨left, rfl⟩ : ∃ fewer, left = fewer + 1 := ⟨left - 1, by simp at short; omega⟩
    rw [groups_weight, ← Nat.add_assoc] at small ⊢
    have first_small : sum + (byte.toNat - 128) * weight < UInt64.size :=
      Nat.lt_of_le_of_lt (Nat.le_add_right _ _) small
    rw [← List.singleton_append]
    apply (byte_reads_back reading byte).andThen
    simp only [marked_group marked, if_neg (Nat.not_le.mpr first_small),
      if_neg (Nat.not_lt.mpr marked)]
    exact ih (by simpa using short) small

theorem groups_of_readGroups {reading : String} {left weight sum total : Nat}
    {cursor next : Cursor} (read : readGroups reading left weight sum cursor = .done total next) :
    ∃ groups n, Groups groups n ∧ groups.length ≤ left ∧ total = sum + n * weight ∧
      total < UInt64.size ∧ cursor.rest = groups ++ next.rest := by
  induction left generalizing weight sum cursor with
  | zero => cases read
  | succ left ih =>
    obtain ⟨position, rest⟩ := cursor
    cases rest with
    | nil => cases read
    | cons byte rest =>
      rw [readGroups_cons] at read
      split at read
      · cases read
      · rename_i small
        split at read
        · rename_i unmarked
          cases read
          have group : byte.toNat % 128 = byte.toNat := Nat.mod_eq_of_lt unmarked
          rw [group] at small ⊢
          exact ⟨[byte], byte.toNat, .last unmarked, by simp, rfl, Nat.not_le.mp small, rfl⟩
        · rename_i marked
          obtain ⟨groups, n, others, short, whole, total_small, split_rest⟩ := ih read
          refine ⟨byte :: groups, _, .more (Nat.not_lt.mp marked) others, by simpa using short, ?_,
            total_small, by simpa using split_rest⟩
          rw [whole, marked_group (Nat.not_lt.mp marked), groups_weight, Nat.add_assoc]

theorem varint_read (reading : String) {groups : Bytes} {n : Nat}
    (spelled : SpellsVarint groups n) : Reads (readVarint reading) groups n := by
  have total : 0 + n * 1 = n := by omega
  have read := groups_read reading spelled.groups spelled.short (total.symm ▸ spelled.small)
  rwa [total] at read

theorem readVarint_exists_iff {reading : String} {cursor : Cursor} {n : Nat} {rest : Bytes} :
    (∃ position, readVarint reading cursor = .done n ⟨position, rest⟩) ↔
      ∃ groups, SpellsVarint groups n ∧ cursor.rest = groups ++ rest := by
  constructor
  · rintro ⟨position, read⟩
    obtain ⟨groups, m, spelled, short, whole, small, same⟩ := groups_of_readGroups read
    rw [Nat.mul_one, Nat.zero_add] at whole
    rw [whole] at small ⊢
    exact ⟨groups, ⟨spelled, short, small⟩, same⟩
  · rintro ⟨groups, spelled, same⟩
    obtain ⟨position, whole⟩ := cursor
    obtain rfl : whole = groups ++ rest := same
    exact ⟨_, varint_read reading spelled position rest⟩

end Cursor

end EntityCatalog
