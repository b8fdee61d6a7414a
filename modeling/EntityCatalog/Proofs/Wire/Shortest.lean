import EntityCatalog.Proofs.Wire.Indexed
import EntityCatalog.Proofs.Wire.Primitives
import Mathlib.Data.Nat.Digits.Defs

/- Which bytes a number is read from, and how the others are refused: they end too early, they hold a
   number that is not one of a word, or there are more than ten of them. Of all the bytes that a
   number is read from, those that are written for it are the fewest, and no others are as few. -/
namespace EntityCatalog

/-- The groups of seven bits, the lowest first, are digits to the base of 128. -/
def groupSum (bytes : Bytes) : Nat := Nat.ofDigits 128 (bytes.map fun byte => byte.toNat % 128)

def AllMarked (bytes : Bytes) : Prop := ∀ byte ∈ bytes, 128 ≤ byte.toNat

def Closed (bytes : Bytes) : Prop :=
  ∃ front last, bytes = front ++ [last] ∧ AllMarked front ∧ last.toNat < 128

/-- Why no varint is read from the bytes, and after how many of them. The mark of a tenth byte does
    not matter once the sum is too large. -/
inductive Unspelled (reading : String) (unread : Bytes) : ReadFault → Nat → Prop where
  | ended (short : unread.length < maxVarintLength) (marked : AllMarked unread) :
      Unspelled reading unread (.endOfInput reading) unread.length
  | overflow {front : Bytes} {last : UInt8} (read : front ++ [last] <+: unread)
      (ten : (front ++ [last]).length = maxVarintLength) (marked : AllMarked front)
      (large : UInt64.size ≤ groupSum (front ++ [last])) :
      Unspelled reading unread .varintOverflow maxVarintLength
  | tooLong {groups : Bytes} (read : groups <+: unread) (ten : groups.length = maxVarintLength)
      (marked : AllMarked groups) (small : groupSum groups < UInt64.size) :
      Unspelled reading unread .varintTooLong maxVarintLength

@[simp] theorem groupSum_cons (byte : UInt8) (rest : Bytes) :
    groupSum (byte :: rest) = byte.toNat % 128 + 128 * groupSum rest := Nat.ofDigits_cons

theorem groupSum_snoc (front : Bytes) (last : UInt8) :
    groupSum (front ++ [last]) =
      groupSum front + last.toNat % 128 * Nat.pow 128 front.length := by
  rw [groupSum, List.map_append, Nat.ofDigits_append, List.length_map, Nat.mul_comm]
  rfl

theorem groupSum_lt (bytes : Bytes) : groupSum bytes < Nat.pow 128 bytes.length := by
  have digits : ∀ digit ∈ bytes.map fun byte => byte.toNat % 128, digit < 128 := by
    intro digit member
    obtain ⟨byte, -, rfl⟩ := List.mem_map.mp member
    exact Nat.mod_lt _ (by decide)
  have bound := Nat.ofDigits_lt_base_pow_length (by decide : 1 < 128) digits
  rwa [List.length_map] at bound

theorem groupSum_small {bytes : Bytes} (few : bytes.length < maxVarintLength) :
    groupSum bytes < UInt64.size := by
  have power : Nat.pow 128 bytes.length ≤ Nat.pow 128 9 :=
    Nat.pow_le_pow_right (by decide) (Nat.le_of_lt_succ few)
  exact Nat.lt_trans (Nat.lt_of_lt_of_le (groupSum_lt bytes) power) (by decide)

theorem AllMarked.cons {byte : UInt8} {rest : Bytes} (marked : 128 ≤ byte.toNat)
    (others : AllMarked rest) : AllMarked (byte :: rest) :=
  List.forall_mem_cons.mpr ⟨marked, others⟩

theorem Closed.single {byte : UInt8} (unmarked : byte.toNat < 128) : Closed [byte] :=
  ⟨[], byte, rfl, nofun, unmarked⟩

theorem Closed.cons {byte : UInt8} {rest : Bytes} (marked : 128 ≤ byte.toNat)
    (closed : Closed rest) : Closed (byte :: rest) := by
  obtain ⟨front, last, rfl, all_marked, unmarked⟩ := closed
  exact ⟨byte :: front, last, rfl, all_marked.cons marked, unmarked⟩

theorem Groups.closed {bytes : Bytes} {n : Nat} (spelled : Groups bytes n) :
    Closed bytes ∧ groupSum bytes = n := by
  induction spelled with
  | @last byte unmarked =>
    refine ⟨.single unmarked, ?_⟩
    rw [groupSum_cons, Nat.mod_eq_of_lt unmarked]
    rfl
  | @more byte rest n marked others ih =>
    refine ⟨ih.1.cons marked, ?_⟩
    rw [groupSum_cons, ih.2, marked_group marked]

theorem Groups.of_closed {bytes : Bytes} (closed : Closed bytes) :
    Groups bytes (groupSum bytes) := by
  obtain ⟨front, last, rfl, all_marked, unmarked⟩ := closed
  induction front with
  | nil =>
    have single : groupSum [last] = last.toNat := Nat.mod_eq_of_lt unmarked
    rw [List.nil_append, single]
    exact .last unmarked
  | cons byte front ih =>
    obtain ⟨marked, others⟩ := List.forall_mem_cons.mp all_marked
    rw [List.cons_append, groupSum_cons, marked_group marked]
    exact .more marked (ih others)

theorem spellsVarint_iff {bytes : Bytes} {n : Nat} (word : n < UInt64.size) :
    SpellsVarint bytes n ↔
      bytes.length ≤ maxVarintLength ∧ Closed bytes ∧ groupSum bytes = n := by
  constructor
  · intro spelled
    exact ⟨spelled.short, spelled.groups.closed⟩
  · rintro ⟨short, closed, rfl⟩
    exact ⟨.of_closed closed, short, word⟩

theorem marks_cases (left : Nat) (bytes : Bytes) :
    (∃ groups, groups <+: bytes ∧ groups.length ≤ left ∧ Closed groups) ∨
      (bytes.length < left ∧ AllMarked bytes) ∨
      ∃ groups, groups <+: bytes ∧ groups.length = left ∧ AllMarked groups := by
  induction left generalizing bytes with
  | zero => exact .inr (.inr ⟨[], List.nil_prefix, rfl, nofun⟩)
  | succ left ih =>
    cases bytes with
    | nil => exact .inr (.inl ⟨Nat.succ_pos left, nofun⟩)
    | cons byte rest =>
      by_cases unmarked : byte.toNat < 128
      · exact .inl ⟨[byte], ⟨rest, rfl⟩, Nat.succ_le_succ (Nat.zero_le left), .single unmarked⟩
      · have marked := Nat.not_lt.mp unmarked
        have longer {groups : Bytes} (before : groups <+: rest) : byte :: groups <+: byte :: rest :=
          List.cons_prefix_cons.mpr ⟨rfl, before⟩
        rcases ih rest with ⟨groups, before, short, closed⟩ | ⟨short, all_marked⟩ |
          ⟨groups, before, whole, all_marked⟩
        · exact .inl ⟨_, longer before, Nat.succ_le_succ short, closed.cons marked⟩
        · exact .inr (.inl ⟨Nat.succ_lt_succ short, all_marked.cons marked⟩)
        · exact .inr (.inr ⟨_, longer before, congrArg Nat.succ whole, all_marked.cons marked⟩)

theorem spelled_or_unspelled (reading : String) (unread : Bytes) :
    (∃ groups n, groups <+: unread ∧ SpellsVarint groups n) ∨
      ∃ fault used, Unspelled reading unread fault used := by
  -- Each string of bytes is spelled in front or refused. A sum that is too large takes all ten.
  rcases marks_cases maxVarintLength unread with ⟨groups, before, short, closed⟩ |
    ⟨short, all_marked⟩ | ⟨groups, before, ten, all_marked⟩
  · by_cases small : groupSum groups < UInt64.size
    · exact .inl ⟨groups, _, before, (spellsVarint_iff small).mpr ⟨short, closed, rfl⟩⟩
    · obtain ⟨front, last, rfl, all_marked, -⟩ := closed
      have ten := Nat.le_antisymm short (Nat.not_lt.mp (mt groupSum_small small))
      exact .inr ⟨_, _, .overflow before ten all_marked (Nat.not_lt.mp small)⟩
  · exact .inr ⟨_, _, .ended short all_marked⟩
  · by_cases small : groupSum groups < UInt64.size
    · exact .inr ⟨_, _, .tooLong before ten all_marked small⟩
    · have some_groups : groups ≠ [] := by
        intro none
        rw [none] at ten
        cases ten
      have split := List.dropLast_append_getLast some_groups
      have front_marked : AllMarked groups.dropLast :=
        fun byte member => all_marked byte (List.dropLast_subset _ member)
      rw [← split] at before ten small
      exact .inr ⟨_, _, .overflow before ten front_marked (Nat.not_lt.mp small)⟩

namespace Cursor

theorem readGroups_marked (reading : String) {front : Bytes} (marked : AllMarked front)
    (left weight sum : Nat) (small : sum + groupSum front * weight < UInt64.size) (position : Nat)
    (rest : Bytes) :
    readGroups reading (front.length + left) weight sum ⟨position, front ++ rest⟩ =
      readGroups reading left (weight * Nat.pow 128 front.length) (sum + groupSum front * weight)
        ⟨position + front.length, rest⟩ := by
  -- Marked bytes are read up to whatever follows them. By induction on these bytes.
  induction front generalizing weight sum position with
  | nil => simp [groupSum]
  | cons byte front ih =>
    obtain ⟨first, others⟩ := List.forall_mem_cons.mp marked
    rw [groupSum_cons, marked_group first, groups_weight, ← Nat.add_assoc] at small ⊢
    have first_small : sum + (byte.toNat - 128) * weight < UInt64.size :=
      Nat.lt_of_le_of_lt (Nat.le_add_right _ _) small
    have power : weight * Nat.pow 128 (front.length + 1) =
        weight * 128 * Nat.pow 128 front.length := by
      rw [Nat.mul_assoc, Nat.mul_comm 128]
      rfl
    rw [List.length_cons, Nat.add_right_comm, List.cons_append, power]
    rw [readGroups_cons, marked_group first, if_neg (Nat.not_le.mpr first_small),
      if_neg (Nat.not_lt.mpr first)]
    rw [ih others _ _ small, Nat.add_assoc position, Nat.add_comm 1]

theorem readVarint_marked (reading : String) {front : Bytes} (marked : AllMarked front) (left : Nat)
    (all : front.length + left = maxVarintLength) (small : groupSum front < UInt64.size)
    (position : Nat) (rest : Bytes) :
    readVarint reading ⟨position, front ++ rest⟩ =
      readGroups reading left (Nat.pow 128 front.length) (groupSum front)
        ⟨position + front.length, rest⟩ := by
  have total : 0 + groupSum front * 1 = groupSum front := by omega
  have read := readGroups_marked reading marked left 1 0 (total.symm ▸ small) position rest
  rwa [total, Nat.one_mul, all] at read

theorem unspelled_refused {reading : String} {unread : Bytes} {fault : ReadFault} {used : Nat}
    (unspelled : Unspelled reading unread fault used) (position : Nat) :
    ∃ rest, readVarint reading ⟨position, unread⟩ = .failed fault ⟨position + used, rest⟩ := by
  cases unspelled with
  | ended short marked =>
    obtain ⟨left, all⟩ := Nat.exists_eq_add_of_lt short
    have read := readVarint_marked reading marked (left + 1) all.symm (groupSum_small short)
      position []
    rw [List.append_nil] at read
    exact ⟨[], read⟩
  | @overflow front last before ten marked large =>
    obtain ⟨rest, rfl⟩ := before
    rw [List.length_append, List.length_singleton] at ten
    rw [groupSum_snoc] at large
    have few : front.length < maxVarintLength := by omega
    have read := readVarint_marked reading marked 1 ten (groupSum_small few) position
      (last :: rest)
    rw [readGroups_cons, if_pos large] at read
    refine ⟨rest, ?_⟩
    rw [List.append_assoc, List.singleton_append, read, ← ten, Nat.add_assoc]
  | @tooLong groups before ten marked small =>
    obtain ⟨rest, rfl⟩ := before
    have read := readVarint_marked reading marked 0 ten small position rest
    rw [ten] at read
    exact ⟨rest, read⟩

end Cursor

theorem Groups.shortest {bytes : Bytes} {n : Nat} (spelled : Groups bytes n) :
    bytes = varint n ∨ (varint n).length < bytes.length := by
  -- By induction on the groups. A group of nothing but zeros behind the others is what makes bytes
  -- longer than they have to be.
  induction spelled with
  | @last byte unmarked =>
    left
    rw [varint, if_pos unmarked, UInt8.ofNat_toNat]
  | @more byte rest n marked others ih =>
    have byte_lt := byte.toNat_lt
    by_cases small : byte.toNat - 128 + 128 * n < 128
    · right
      have some_rest : 0 < rest.length := by cases others <;> exact Nat.succ_pos _
      rw [varint_small small, List.length_cons]
      omega
    · have group : UInt8.ofNat ((byte.toNat - 128 + 128 * n) % 128 + 128) = byte := by
        have same : (byte.toNat - 128 + 128 * n) % 128 + 128 = byte.toNat := by omega
        rw [same, UInt8.ofNat_toNat]
      have following : (byte.toNat - 128 + 128 * n) / 128 = n := by omega
      rw [varint, if_neg small, group, following, List.length_cons, List.length_cons]
      rcases ih with same | longer
      · exact .inl (congrArg (byte :: ·) same)
      · exact .inr (Nat.succ_lt_succ longer)

theorem varint_spelled {n : Nat} (word : n < UInt64.size) : SpellsVarint (varint n) n := by
  have read := varint_reads_back "number" word 0 []
  rw [List.append_nil] at read
  obtain ⟨groups, spelled, same⟩ := Cursor.readVarint_exists_iff.mp ⟨_, read⟩
  rw [List.append_nil] at same
  rwa [← same] at spelled

namespace IndexedCursor
variable {reading : String} {cursor next : IndexedCursor}

theorem readVarint_eq_done_iff {value : UInt64} (bounds : cursor.InBounds) :
    cursor.readVarint reading = .done value next ↔
      ∃ groups, SpellsVarint groups value.toNat ∧ groups <+: cursor.unread ∧
        next = cursor.moved groups.length := by
  have mirrors := readVarint_mirrors reading
  constructor
  · intro read
    obtain ⟨same, reached⟩ := mirrors.of_done bounds (congrArg (Access.map UInt64.toNat) read)
    obtain ⟨groups, spelled, split⟩ : ∃ groups, SpellsVarint groups value.toNat ∧
        cursor.unread = groups ++ next.unread := Cursor.readVarint_exists_iff.mp ⟨_, same⟩
    have whole := Cursor.varint_read reading spelled cursor.position next.unread
    rw [← split] at whole
    have landed := (Reply.done.inj (same.symm.trans whole)).2
    exact ⟨groups, spelled, ⟨next.unread, split.symm⟩,
      reached.eq_moved (congrArg Cursor.position landed)⟩
  · rintro ⟨groups, spelled, ⟨rest, split⟩, rfl⟩
    have whole := Cursor.varint_read reading spelled cursor.position rest
    rw [split] at whole
    exact Access.eq_of_map_eq_done (fun _ _ => UInt64.toNat_inj.mp) (mirrors.done_of bounds whole)

theorem readVarint_eq_failed_iff {fault : ReadFault} (bounds : cursor.InBounds) :
    cursor.readVarint reading = .failed fault next ↔
      ∃ used, Unspelled reading cursor.unread fault used ∧ next = cursor.moved used := by
  have mirrors := readVarint_mirrors reading
  constructor
  · intro read
    obtain ⟨same, reached⟩ := mirrors.of_failed bounds (congrArg (Access.map UInt64.toNat) read)
    rcases spelled_or_unspelled reading cursor.unread with
      ⟨groups, n, ⟨rest, split⟩, spelled⟩ | ⟨found, used, unspelled⟩
    · have whole := Cursor.varint_read reading spelled cursor.position rest
      rw [split] at whole
      cases same.symm.trans whole
    · obtain ⟨rest, refused⟩ := Cursor.unspelled_refused unspelled cursor.position
      obtain ⟨rfl, landed⟩ := Reply.failed.inj (same.symm.trans refused)
      exact ⟨used, unspelled, reached.eq_moved (congrArg Cursor.position landed)⟩
  · rintro ⟨used, unspelled, rfl⟩
    obtain ⟨rest, refused⟩ := Cursor.unspelled_refused unspelled cursor.position
    exact Access.eq_of_map_eq_failed (mirrors.failed_of bounds refused)

/-- The bytes are few, the value is read from them all, and any other input that it is read from is
    longer. -/
structure Shortest (reading : String) (bytes : Bytes) (value : UInt64) : Prop where
  few : bytes.length ≤ maxVarintLength
  read : (start bytes.toArray).readVarint reading =
    .done value ((start bytes.toArray).moved bytes.length)
  longer : ∀ input next, input.size < UInt64.size →
    (start input).readVarint reading = .done value next →
      input = bytes.toArray ∨ bytes.length < input.size

theorem varint_shortest (reading : String) (value : UInt64) :
    Shortest reading (varint value.toNat) value := by
  have spelled := varint_spelled value.toNat_lt
  have small : (varint value.toNat).toArray.size < UInt64.size :=
    Nat.lt_of_le_of_lt spelled.short (by decide)
  constructor
  · exact spelled.short
  · exact (readVarint_eq_done_iff (start_inBounds small)).mpr
      ⟨_, spelled, List.prefix_rfl, rfl⟩
  · intro input next size read
    obtain ⟨groups, other, before, -⟩ := (readVarint_eq_done_iff (start_inBounds size)).mp read
    have before_input : groups <+: input.toList := before
    have within := before_input.length_le
    rw [Array.length_toList] at within
    rcases other.groups.shortest with same | more
    · rw [same] at before_input within
      rcases Nat.eq_or_lt_of_le within with whole | more
      · have all := before_input.eq_of_length whole
        exact .inl (by rw [all])
      · exact .inr more
    · exact .inr (Nat.lt_of_lt_of_le more within)

/-- A number is read from the bytes in front exactly if these are closed, at most ten, and have the
    number as their sum. All other bytes are refused, for what they are. What is written for a number
    finds room in its buffer, and no other bytes of the number are as few. Folding a sign away and
    unfolding it undo each other. -/
theorem varints_faithful (reading : String) (cursor : IndexedCursor) (bounds : cursor.InBounds) :
    (∀ value next, cursor.readVarint reading = .done value next ↔
      ∃ groups, groups <+: cursor.unread ∧ groups.length ≤ maxVarintLength ∧ Closed groups ∧
        groupSum groups = value.toNat ∧ next = cursor.moved groups.length) ∧
    (∀ fault stop, cursor.readVarint reading = .failed fault stop ↔
      ∃ used, Unspelled reading cursor.unread fault used ∧ stop = cursor.moved used) ∧
    cursor.readVarint reading ≠ .outOfBounds ∧
    (∀ (out : Output) (value : UInt64), ∃ bytes, groups? maxVarintLength value = some bytes ∧
      out.varint? value = some (out.bytes bytes) ∧ Shortest reading bytes value) ∧
    Function.LeftInverse unzigzagWord zigzagWord ∧
    Function.RightInverse unzigzagWord zigzagWord := by
  refine ⟨?_, ?_, ?_, ?_, unzigzagWord_zigzagWord, zigzagWord_unzigzagWord⟩
  · intro value next
    rw [readVarint_eq_done_iff bounds]
    simp only [spellsVarint_iff value.toNat_lt]
    constructor
    · rintro ⟨groups, ⟨short, closed, sum⟩, before, place⟩
      exact ⟨groups, before, short, closed, sum, place⟩
    · rintro ⟨groups, before, short, closed, sum, place⟩
      exact ⟨groups, ⟨short, closed, sum⟩, before, place⟩
  · intro fault stop
    exact readVarint_eq_failed_iff bounds
  · intro outside
    exact (readVarint_mirrors reading).ne_outOfBounds bounds
      (congrArg (Access.map UInt64.toNat) outside)
  · intro out value
    exact ⟨varint value.toNat, groups?_varint value, out.varint?_eq value,
      varint_shortest reading value⟩

/-- Behind a first byte, the largest number of all, and one that is too large. -/
def largestVarint : IndexedCursor :=
  ⟨#[0, 255, 255, 255, 255, 255, 255, 255, 255, 255, 1, 7], 1⟩

def overflowingVarint : IndexedCursor :=
  ⟨#[0, 255, 255, 255, 255, 255, 255, 255, 255, 255, 2, 7], 1⟩

theorem extreme_varints_faithful :
    largestVarint.InBounds ∧ overflowingVarint.InBounds ∧
      largestVarint.readVarint "number" =
        .done 18446744073709551615 (largestVarint.moved 10) ∧
      overflowingVarint.readVarint "number" =
        .failed .varintOverflow (overflowingVarint.moved 10) := by
  have largest_bounds : largestVarint.InBounds := ⟨by decide, by decide⟩
  have overflowing_bounds : overflowingVarint.InBounds := ⟨by decide, by decide⟩
  obtain ⟨read, -⟩ := varints_faithful "number" largestVarint largest_bounds
  obtain ⟨-, refused, -⟩ := varints_faithful "number" overflowingVarint overflowing_bounds
  have marked : AllMarked (List.replicate 9 255) := by
    intro byte member
    rw [List.eq_of_mem_replicate member]
    decide
  have largest : List.replicate 9 255 ++ [1] <+: largestVarint.unread := ⟨[7], by decide⟩
  have overflowing : List.replicate 9 255 ++ [2] <+: overflowingVarint.unread := ⟨[7], by decide⟩
  refine ⟨largest_bounds, overflowing_bounds, ?_, ?_⟩
  · exact (read _ _).mpr ⟨_, largest, by decide, ⟨_, 1, rfl, marked, by decide⟩, by decide, rfl⟩
  · exact (refused _ _).mpr
      ⟨maxVarintLength, .overflow overflowing (by decide) marked (by decide), rfl⟩

end IndexedCursor
end EntityCatalog
