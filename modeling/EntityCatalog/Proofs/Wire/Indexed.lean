import EntityCatalog.Proofs.Wire.Locality
import EntityCatalog.Proofs.Wire.Streams
import EntityCatalog.Wire.Indexed

/- Reading by position is reading from what is left of the input. No step leaves its bounds as long as
   the cursor is inside of an input whose size is a word, and each read leaves it there, behind the
   place where it was. -/
namespace EntityCatalog
variable {α β γ : Type}

namespace Access

@[simp] theorem map_map (access : Access α) (f : α → β) (g : β → γ) :
    (access.map f).map g = access.map fun value => g (f value) := by
  cases access <;> rfl

theorem map_andThen (access : Access α) (onward : α → IndexedCursor → Access β) (f : β → γ) :
    (access.andThen onward).map f =
      access.andThen fun value next => (onward value next).map f := by
  cases access <;> rfl

theorem eq_of_map_eq_done {access : Access α} {f : α → β} {value : α} {next : IndexedCursor}
    (injective : Function.Injective f) (mapped : access.map f = .done (f value) next) :
    access = .done value next := by
  cases access with
  | done found stop =>
    obtain ⟨same, rfl⟩ := Access.done.inj mapped
    rw [injective same]
  | failed fault stop => cases mapped
  | outOfBounds => cases mapped

theorem eq_of_map_eq_failed {access : Access α} {f : α → β} {fault : ReadFault}
    {stop : IndexedCursor} (mapped : access.map f = .failed fault stop) :
    access = .failed fault stop := by
  cases access with
  | done value next => cases mapped
  | failed found place =>
    obtain ⟨rfl, rfl⟩ := Access.failed.inj mapped
    rfl
  | outOfBounds => cases mapped

end Access

namespace IndexedCursor

def unread (cursor : IndexedCursor) : Bytes := cursor.input.toList.drop cursor.position

def moved (cursor : IndexedCursor) (count : Nat) : IndexedCursor :=
  { cursor with position := cursor.position + count }

def cursor (c : IndexedCursor) : Cursor := ⟨c.position, c.unread⟩

structure InBounds (cursor : IndexedCursor) : Prop where
  size : cursor.input.size < UInt64.size
  position : cursor.position ≤ cursor.input.size

theorem start_inBounds {input : Array UInt8} (size : input.size < UInt64.size) :
    (start input).InBounds := ⟨size, Nat.zero_le _⟩

structure Reaches (cursor next : IndexedCursor) : Prop where
  input : next.input = cursor.input
  forward : cursor.position ≤ next.position
  inside : next.position ≤ cursor.input.size

variable {cursor next last : IndexedCursor}

theorem Reaches.inBounds (reaches : cursor.Reaches next) (bounds : cursor.InBounds) :
    next.InBounds := by
  constructor
  · rw [reaches.input]
    exact bounds.size
  · rw [reaches.input]
    exact reaches.inside

theorem Reaches.refl (bounds : cursor.InBounds) : cursor.Reaches cursor :=
  ⟨rfl, Nat.le_refl _, bounds.position⟩

theorem Reaches.trans (first : cursor.Reaches next) (second : next.Reaches last) :
    cursor.Reaches last := by
  constructor
  · rw [second.input, first.input]
  · exact Nat.le_trans first.forward second.forward
  · rw [← first.input]
    exact second.inside

theorem Reaches.eq_moved {count : Nat} (reaches : cursor.Reaches next)
    (position : next.position = cursor.position + count) : next = cursor.moved count := by
  have input := reaches.input
  cases next
  simp only at input position
  rw [input, position, moved]

/-- The same comes out of both reads, in bounds and without a step back. -/
inductive Agrees (cursor : IndexedCursor) : Access α → Reply α → Prop where
  | done {value : α} {next : IndexedCursor} (reached : cursor.Reaches next) :
      Agrees cursor (.done value next) (.done value next.cursor)
  | failed {fault : ReadFault} {stop : IndexedCursor} (reached : cursor.Reaches stop) :
      Agrees cursor (.failed fault stop) (.failed fault stop.cursor)

def Mirrors (access : IndexedCursor → Access α) (reply : Cursor → Reply α) : Prop :=
  ∀ cursor : IndexedCursor, cursor.InBounds → cursor.Agrees (access cursor) (reply cursor.cursor)

namespace Agrees
variable {access : Access α} {reply : Reply α}

theorem map (agrees : cursor.Agrees access reply) (f : α → β) :
    cursor.Agrees (access.map f) (reply.map f) := by
  cases agrees with
  | done reached => exact .done reached
  | failed reached => exact .failed reached

theorem further (agrees : next.Agrees access reply) (reaches : cursor.Reaches next) :
    cursor.Agrees access reply := by
  cases agrees with
  | done reached => exact .done (reaches.trans reached)
  | failed reached => exact .failed (reaches.trans reached)

theorem of_done {value : α} (agrees : cursor.Agrees (.done value next) reply) :
    reply = .done value next.cursor ∧ cursor.Reaches next := by
  cases agrees with
  | done reached => exact ⟨rfl, reached⟩

theorem of_failed {fault : ReadFault} (agrees : cursor.Agrees (α := α) (.failed fault next) reply) :
    reply = .failed fault next.cursor ∧ cursor.Reaches next := by
  cases agrees with
  | failed reached => exact ⟨rfl, reached⟩

theorem done_of {value : α} {stop : Cursor} (agrees : cursor.Agrees access (.done value stop)) :
    ∃ next : IndexedCursor, access = .done value next ∧ next.cursor = stop ∧
      cursor.Reaches next := by
  generalize same : Reply.done value stop = reply at agrees
  cases agrees with
  | @done found next reached =>
    obtain ⟨rfl, rfl⟩ := Reply.done.inj same
    exact ⟨next, rfl, rfl, reached⟩
  | failed reached => cases same

theorem failed_of {fault : ReadFault} {stop : Cursor}
    (agrees : cursor.Agrees access (.failed fault stop)) :
    ∃ next : IndexedCursor, access = .failed fault next ∧ next.cursor = stop ∧
      cursor.Reaches next := by
  generalize same : Reply.failed fault stop = reply at agrees
  cases agrees with
  | done reached => cases same
  | @failed found next reached =>
    obtain ⟨rfl, rfl⟩ := Reply.failed.inj same
    exact ⟨next, rfl, rfl, reached⟩

end Agrees

namespace Mirrors
variable {access : IndexedCursor → Access α} {reply : Cursor → Reply α}

theorem done (value : α) : Mirrors (.done value) (.done value) :=
  fun _ bounds => .done (.refl bounds)

theorem failed (fault : ReadFault) : Mirrors (α := α) (.failed fault) (.failed fault) :=
  fun _ bounds => .failed (.refl bounds)

theorem map (here : Mirrors access reply) (f : α → β) :
    Mirrors (fun cursor => (access cursor).map f) fun cursor => (reply cursor).map f :=
  fun cursor bounds => (here cursor bounds).map f

theorem andThen {access_on : α → IndexedCursor → Access β} {reply_on : α → Cursor → Reply β}
    (here : Mirrors access reply) (after : ∀ value, Mirrors (access_on value) (reply_on value)) :
    Mirrors (fun cursor => (access cursor).andThen access_on)
      fun cursor => (reply cursor).andThen reply_on := by
  -- The second read begins where the first one has stopped.
  intro cursor bounds
  have agrees := here cursor bounds
  simp only
  generalize access cursor = found, reply cursor.cursor = answer at agrees
  cases agrees with
  | @done value next reached =>
    exact (after value next (reached.inBounds bounds)).further reached
  | failed reached => exact .failed reached

theorem ne_outOfBounds (here : Mirrors access reply) (bounds : cursor.InBounds) :
    access cursor ≠ .outOfBounds := by
  intro outside
  have agrees := here cursor bounds
  rw [outside] at agrees
  cases agrees

theorem of_done {value : α} (here : Mirrors access reply) (bounds : cursor.InBounds)
    (read : access cursor = .done value next) :
    reply cursor.cursor = .done value next.cursor ∧ cursor.Reaches next :=
  (read ▸ here cursor bounds).of_done

theorem of_failed {fault : ReadFault} (here : Mirrors access reply) (bounds : cursor.InBounds)
    (read : access cursor = .failed fault next) :
    reply cursor.cursor = .failed fault next.cursor ∧ cursor.Reaches next :=
  (read ▸ here cursor bounds).of_failed

theorem done_of {value : α} {count : Nat} {rest : Bytes} (here : Mirrors access reply)
    (bounds : cursor.InBounds)
    (read : reply cursor.cursor = .done value ⟨cursor.position + count, rest⟩) :
    access cursor = .done value (cursor.moved count) := by
  obtain ⟨next, found, place, reached⟩ := (read ▸ here cursor bounds).done_of
  rw [found, reached.eq_moved (congrArg Cursor.position place)]

theorem failed_of {fault : ReadFault} {count : Nat} {rest : Bytes} (here : Mirrors access reply)
    (bounds : cursor.InBounds)
    (read : reply cursor.cursor = .failed fault ⟨cursor.position + count, rest⟩) :
    access cursor = .failed fault (cursor.moved count) := by
  obtain ⟨next, found, place, reached⟩ := (read ▸ here cursor bounds).failed_of
  rw [found, reached.eq_moved (congrArg Cursor.position place)]

end Mirrors

@[simp] theorem unread_length (cursor : IndexedCursor) :
    cursor.unread.length = cursor.input.size - cursor.position := by
  rw [unread, List.length_drop, Array.length_toList]

@[simp] theorem unread_moved (cursor : IndexedCursor) (count : Nat) :
    (cursor.moved count).unread = cursor.unread.drop count := by
  rw [unread, unread, List.drop_drop]
  rfl

theorem extract_toList (cursor : IndexedCursor) (count : Nat) :
    (cursor.input.extract cursor.position (cursor.position + count)).toList =
      cursor.unread.take count := by
  rw [Array.toList_extract, List.extract_eq_take_drop, Nat.add_sub_cancel_left]
  rfl

theorem size?_of_lt {n : Nat} (small : n < UInt64.size) : size? n = some n := if_pos small

theorem readByte_mirrors (reading : String) :
    Mirrors (readByte reading) (Cursor.readByte reading) := by
  intro cursor bounds
  have size := bounds.size
  by_cases inside : cursor.position < cursor.input.size
  · have found := Array.getElem?_eq_getElem inside
    have unread := List.drop_eq_getElem_cons (l := cursor.input.toList) inside
    have here : readByte reading cursor =
        .done cursor.input[cursor.position] (cursor.moved 1) := by
      simp only [readByte, found, size?_of_lt (Nat.lt_of_le_of_lt inside size), Access.within_some]
      rfl
    have there : Cursor.readByte reading cursor.cursor =
        .done cursor.input[cursor.position] (cursor.moved 1).cursor := by
      simp only [IndexedCursor.cursor, IndexedCursor.unread, Cursor.readByte, unread]
      rfl
    rw [here, there]
    exact .done ⟨rfl, Nat.le_succ _, inside⟩
  · have outside := Nat.not_lt.mp inside
    have found := Array.getElem?_eq_none outside
    have nothing : cursor.unread = [] := List.drop_eq_nil_iff.mpr outside
    simp only [readByte, found, IndexedCursor.cursor, Cursor.readByte, nothing]
    rw [← nothing]
    exact .failed (.refl bounds)

theorem readBytes_mirrors (count : Nat) (reading : String) :
    Mirrors (readBytes count reading) (Cursor.readBytes count reading) := by
  intro cursor bounds
  obtain ⟨size, position⟩ := bounds
  have left := unread_length cursor
  by_cases enough : cursor.position + count ≤ cursor.input.size
  · have taken : (cursor.unread.take count).length = count := by
      rw [List.length_take, left]
      omega
    have split := splitExactly_append (cursor.unread.take count) [] (cursor.unread.drop count)
    rw [List.take_append_drop, taken, List.reverse_nil, List.nil_append] at split
    have found : ((size? (cursor.position + count)).filter fun stop =>
        stop ≤ cursor.input.size) = some (cursor.position + count) := by
      rw [size?_of_lt (Nat.lt_of_le_of_lt enough size), Option.filter_some,
        if_pos (decide_eq_true enough)]
    have part_found : part? cursor.input cursor.position (cursor.position + count) =
        some (cursor.unread.take count) := by
      rw [part?, if_pos ⟨Nat.le_add_right _ _, enough⟩, extract_toList]
    have here : readBytes count reading cursor =
        .done (cursor.unread.take count) (cursor.moved count) := by
      simp only [readBytes, found, part_found, Access.within_some]
      rfl
    have there : Cursor.readBytes count reading cursor.cursor =
        .done (cursor.unread.take count) (cursor.moved count).cursor := by
      simp only [IndexedCursor.cursor, Cursor.readBytes, split, unread_moved]
      rfl
    rw [here, there]
    exact .done ⟨rfl, Nat.le_add_right _ _, enough⟩
  · have few : cursor.unread.length < count := by omega
    have refused : ((size? (cursor.position + count)).filter fun stop =>
        stop ≤ cursor.input.size) = none := by
      unfold size?
      split
      · rw [Option.filter_some, if_neg (by simpa using enough)]
      · rfl
    simp only [readBytes, refused, IndexedCursor.cursor, Cursor.readBytes,
      splitExactly_eq_none few]
    exact .failed (.refl ⟨size, position⟩)

theorem readBool_mirrors (reading : String) :
    Mirrors (readBool reading) (Cursor.readBool reading) := by
  apply (readByte_mirrors reading).andThen
  intro byte
  by_cases zero : byte = 0
  · simp only [if_pos zero]
    exact .done false
  · by_cases one : byte = 1
    · simp only [if_neg zero, if_pos one]
      exact .done true
    · simp only [if_neg zero, if_neg one]
      exact .failed _

theorem sum_lt {sum group weight : Nat} (low : sum < weight) (small : group < 128) :
    sum + group * weight < weight * 128 := by
  have group_part : group * weight ≤ 127 * weight :=
    Nat.mul_le_mul_right _ (Nat.le_of_lt_succ small)
  omega

theorem group_overflows_iff {sum group count : Nat} (few : count < maxVarintLength)
    (low : sum < Nat.pow 128 count) (small : group < 128) :
    (7 * count = 63 ∧ 1 < group) ↔ UInt64.size ≤ sum + group * Nat.pow 128 count := by
  -- Nine groups do not fill a word. It has one more bit for the tenth.
  have most : count ≤ 9 := Nat.le_of_lt_succ few
  rcases Nat.lt_or_eq_of_le most with fewer | rfl
  · have power : Nat.pow 128 (count + 1) ≤ Nat.pow 128 9 :=
      Nat.pow_le_pow_right (by decide) fewer
    have below : sum + group * Nat.pow 128 count < UInt64.size :=
      Nat.lt_trans (Nat.lt_of_lt_of_le (sum_lt low small) power) (by decide)
    omega
  · have weight : Nat.pow 128 9 = 9223372036854775808 := by decide
    have size : UInt64.size = 18446744073709551616 := rfl
    rw [weight] at low ⊢
    omega

theorem readGroups_mirrors (reading : String) {left count : Nat} {result : UInt64}
    (all : left + count = maxVarintLength) (low : result.toNat < Nat.pow 128 count) :
    Mirrors (fun cursor => (cursor.readGroups reading left result (7 * count)).map UInt64.toNat)
      (Cursor.readGroups reading left (Nat.pow 128 count) result.toNat) := by
  -- By induction on the bytes that may follow. The groups so far are as many as the bits that are
  -- taken have room for.
  induction left generalizing count result with
  | zero => exact .failed .varintTooLong
  | succ left ih =>
    have few : count < maxVarintLength := by omega
    have places : 7 * count < 64 := by
      have most : count ≤ 9 := Nat.le_of_lt_succ few
      omega
    simp only [readGroups, Access.map_andThen]
    apply (readByte_mirrors reading).andThen
    intro byte
    have group := read_group_toNat byte
    have group_small : byte.toNat % 128 < 128 := Nat.mod_lt _ (by decide)
    have overflows := group_overflows_iff few low group_small
    have above : 1 < (byte &&& 127).toUInt64 ↔ 1 < byte.toNat % 128 := by
      rw [← group]
      exact UInt64.lt_iff_toNat_lt
    by_cases large : UInt64.size ≤ result.toNat + byte.toNat % 128 * Nat.pow 128 count
    · have refused : 7 * count = 63 ∧ 1 < (byte &&& 127).toUInt64 := by
        rw [above]
        exact overflows.mpr large
      simp only [if_pos refused, if_pos large]
      exact .failed _
    · have allowed : ¬(7 * count = 63 ∧ 1 < (byte &&& 127).toUInt64) := by
        rw [above, overflows]
        exact large
      have fits := Nat.not_le.mp large
      rw [← group] at fits
      have joined := joined_toNat places low fits
      rw [group] at joined
      simp only [if_neg allowed, if_neg large, shifted?, if_pos places, Access.within_some]
      by_cases last : byte.toNat < 128
      · simp only [if_pos last, if_pos ((unmarked_iff byte).mpr last), ← joined]
        exact .done _
      · have marked := mt (unmarked_iff byte).mp last
        simp only [if_neg last, if_neg marked, ← joined]
        have onward : left + (count + 1) = maxVarintLength := by omega
        apply ih onward
        rw [joined]
        exact sum_lt low group_small

theorem readVarint_mirrors (reading : String) :
    Mirrors (fun cursor => (cursor.readVarint reading).map UInt64.toNat)
      (Cursor.readVarint reading) :=
  @readGroups_mirrors reading maxVarintLength 0 0 rfl (by decide)

theorem readSigned_mirrors (reading : String) :
    Mirrors (fun cursor => (cursor.readSigned reading).map Int64.toInt)
      (Cursor.readSigned reading) := by
  have folded := (readVarint_mirrors reading).map unzigzag
  simp only [readSigned, Access.map_map, unzigzagWord_toInt] at folded ⊢
  exact folded

theorem readLength_mirrors (limit : Nat) (part : String) :
    Mirrors (readLength limit part) (Cursor.readLength limit part) := by
  apply (readVarint_mirrors part).andThen
  intro length
  by_cases large : limit < length
  · simp only [if_pos large]
    exact .failed _
  · simp only [if_neg large]
    exact .done length

theorem readString_mirrors (limit : Nat) (part : String) :
    Mirrors (readString limit part) (Cursor.readString limit part) := by
  apply (readLength_mirrors limit part).andThen
  intro length
  apply (readBytes_mirrors length part).andThen
  intro bytes
  cases ofUtf8? bytes with
  | none => exact .failed _
  | some text => exact .done text

theorem read_mirrors (reading : Reading) :
    Mirrors (fun cursor => cursor.read reading) fun cursor => cursor.read reading := by
  cases reading with
  | byte reading => exact (readByte_mirrors reading).map _
  | bytes count reading => exact (readBytes_mirrors count reading).map _
  | bool reading => exact (readBool_mirrors reading).map _
  | varint reading =>
    have found := (readVarint_mirrors reading).map Primitive.varint
    simp only [Access.map_map] at found
    exact found
  | signed reading =>
    have found := (readSigned_mirrors reading).map Primitive.signed
    simp only [Access.map_map] at found
    exact found
  | length limit part => exact (readLength_mirrors limit part).map _
  | string limit part => exact (readString_mirrors limit part).map _

end IndexedCursor
end EntityCatalog
