import EntityCatalog.Proofs.Results
import EntityCatalog.Proofs.Wire.RoundTrip
import EntityCatalog.Proofs.Wire.Primitives

/- Compressed documents of any origin. The size in front of the payload has to be within the limit and
   has to be the number of bytes that the payload unpacks to. Of a longer stream one byte more is
   taken than it should have, and nothing that comes behind makes a difference. What was unpacked is
   read as a plain document only. -/
namespace EntityCatalog

/-- What is unpacked by a stream of which so many bytes are expected. -/
def Stream.expected (size : Nat) (stream : Stream) : Except ReadFault Bytes :=
  if size < stream.bytes.length then .error (.sizeMismatch size (size + 1))
  else if stream.intact = false then .error .decompressionFailed
  else if stream.bytes.length < size then .error (.sizeMismatch size stream.bytes.length)
  else .ok stream.bytes

theorem Stream.expected_eq_ok {size : Nat} {stream : Stream} {bytes : Bytes} :
    stream.expected size = .ok bytes ↔
      stream.intact = true ∧ stream.bytes.length = size ∧ stream.bytes = bytes := by
  unfold expected
  by_cases longer : size < stream.bytes.length
  · rw [if_pos longer]
    exact ⟨fun same => (by cases same), fun ⟨_, exact_size, _⟩ => absurd longer (by omega)⟩
  · rw [if_neg longer]
    cases intact : stream.intact with
    | false => simp
    | true =>
      by_cases shorter : stream.bytes.length < size
      · simp only [if_pos shorter, Bool.true_eq_false, if_false]
        exact ⟨fun same => (by cases same), fun ⟨_, exact_size, _⟩ => absurd shorter (by omega)⟩
      · have exact_size : stream.bytes.length = size := by omega
        simp [exact_size]

theorem Stream.expected_longer {size : Nat} {stream other : Stream}
    (longer : size < stream.bytes.length)
    (same : other.bytes.take (size + 1) = stream.bytes.take (size + 1)) :
    other.expected size = .error (.sizeMismatch size (size + 1)) := by
  -- The first bytes of a stream that is too long decide alone.
  have lengths := congrArg List.length same
  rw [List.length_take, List.length_take] at lengths
  exact if_pos (by omega)

section
variable {method : Compression} {limits : Limits} {groups payload : Bytes} {size : Nat}

/-- The bytes that are taken tell the length of the stream as far as it matters. -/
theorem unpackSized_spelled (spelled : SpellsVarint groups size)
    (allowed : size ≤ limits.documentSize) :
    unpackSized method limits (groups ++ payload) = (method.unpack size payload).expected size := by
  have read : (Cursor.start (groups ++ payload)).readLength limits.documentSize
      "uncompressed_size" = .done size ⟨0 + groups.length, payload⟩ := by
    rw [Cursor.start, Cursor.readLength, Cursor.varint_read _ spelled]
    exact if_neg (Nat.not_lt.mpr allowed)
  simp only [unpackSized, read, Stream.take_eq, Stream.expected, List.length_take]
  by_cases longer : size < (method.unpack size payload).bytes.length
  · have taken : min (size + 1) (method.unpack size payload).bytes.length = size + 1 := by omega
    rw [taken, if_pos (Nat.lt_succ_self size), if_pos longer]
  · have taken : min (size + 1) (method.unpack size payload).bytes.length =
        (method.unpack size payload).bytes.length := by omega
    rw [taken, if_neg longer, if_neg longer, List.take_of_length_le (by omega)]

theorem spelled_of_unpackSized {sized bytes : Bytes}
    (unpacked : unpackSized method limits sized = .ok bytes) :
    ∃ groups payload size, sized = groups ++ payload ∧ SpellsVarint groups size ∧
      size ≤ limits.documentSize := by
  unfold unpackSized Cursor.readLength at unpacked
  cases found : (Cursor.start sized).readVarint "uncompressed_size" with
  | failed fault stop =>
    rw [found, Reply.andThen_failed] at unpacked
    cases unpacked
  | done size next =>
    rw [found, Reply.andThen_done] at unpacked
    by_cases allowed : limits.documentSize < size
    · simp only [if_pos allowed] at unpacked
      cases unpacked
    · obtain ⟨groups, spelled, same⟩ := Cursor.readVarint_exists_iff.mp ⟨_, found⟩
      exact ⟨groups, next.rest, size, same, spelled, Nat.not_lt.mp allowed⟩

end

theorem decode_packedMagic (method : Compression) (limits : Limits) (sized : Bytes) :
    decode method limits (packedMagic ++ sized) =
      unpackSized method limits sized >>= decodePlain limits := by
  have long : ¬ (packedMagic ++ sized).length < plainMagic.length := by
    simp [packedMagic, plainMagic]
  have marked : isPacked (packedMagic ++ sized) = true := by simp [isPacked, packedMagic]
  rw [decode, if_neg long, if_pos marked, List.drop_left]
  cases unpackSized method limits sized <;> rfl

theorem decodePlain_packedMagic {limits : Limits} {input : Bytes} (marked : packedMagic <+: input)
    (small : input.length ≤ limits.documentSize) :
    decodePlain limits input = .error (.unsupportedFormat 90) := by
  -- The last character of the other magic stands where the format version should.
  obtain ⟨rest, rfl⟩ := marked
  have magic : plainMagic.isPrefixOf (packedMagic ++ rest) = true := rfl
  have version : (Cursor.start ((packedMagic ++ rest).drop plainMagic.length)).readByte "version" =
      .done 90 ⟨1, rest⟩ := rfl
  have unsupported : (90 : UInt8) < oldestFormat ∨ currentFormat < 90 := by decide
  simp only [decodePlain, magic, Bool.true_eq_false, if_false, if_neg (Nat.not_lt.mpr small),
    version, if_pos unsupported]

theorem plainMagic_of_decodePlain {limits : Limits} {input : Bytes} {d : Document}
    (accepted : decodePlain limits input = .ok d) : plainMagic <+: input := by
  by_cases magic : plainMagic.isPrefixOf input = false
  · rw [decodePlain, if_pos magic] at accepted
    cases accepted
  · exact List.isPrefixOf_iff_prefix.mp (Bool.not_eq_false _ ▸ magic)

/-- What becomes of a compressed document whose size is within the limit, by what comes out of its
    payload. -/
structure Settles (limits : Limits) (size : Nat) (stream : Stream)
    (result : Except ReadFault Document) : Prop where
  longer : size < stream.bytes.length → result = .error (.sizeMismatch size (size + 1))
  shorter : stream.intact = true → stream.bytes.length < size →
    result = .error (.sizeMismatch size stream.bytes.length)
  broken : stream.intact = false → stream.bytes.length ≤ size → result = .error .decompressionFailed
  honest : stream.intact = true → stream.bytes.length = size →
    result = decodePlain limits stream.bytes

theorem expected_settles (limits : Limits) (size : Nat) (stream : Stream) :
    Settles limits size stream (stream.expected size >>= decodePlain limits) := by
  constructor
  · intro longer
    rw [Stream.expected, if_pos longer]
    rfl
  · intro intact shorter
    rw [Stream.expected, if_neg (by omega), if_neg (by simp [intact]), if_pos shorter]
    rfl
  · intro broken short
    rw [Stream.expected, if_neg (by omega), if_pos broken]
    rfl
  · intro intact exact_size
    rw [Stream.expected_eq_ok.mpr ⟨intact, exact_size, rfl⟩]
    rfl

/-- A compressed document is accepted exactly if its size is within the limit and its payload
    unpacks, without a fault, to so many bytes that make up a plain document. A stream that does not
    keep to the size is told by its length, or by one byte more than the size if it is longer,
    whatever would follow. Nothing but the stream of this one payload is ever unpacked. -/
theorem packed_accepted_iff_honest (method : Compression) (limits : Limits) (sized : Bytes) :
    (∀ d, decode method limits (packedMagic ++ sized) = .ok d ↔
      ∃ groups payload size, sized = groups ++ payload ∧ SpellsVarint groups size ∧
        size ≤ limits.documentSize ∧ (method.unpack size payload).intact = true ∧
        (method.unpack size payload).bytes.length = size ∧
        plainMagic <+: (method.unpack size payload).bytes ∧
        decodePlain limits (method.unpack size payload).bytes = .ok d) ∧
    ∀ groups payload size, sized = groups ++ payload → SpellsVarint groups size →
      size ≤ limits.documentSize →
        Settles limits size (method.unpack size payload)
          (decode method limits (packedMagic ++ sized)) ∧
        (size < (method.unpack size payload).bytes.length → ∀ other : Compression,
          (other.unpack size payload).bytes.take (size + 1) =
            (method.unpack size payload).bytes.take (size + 1) →
          decode other limits (packedMagic ++ sized) = .error (.sizeMismatch size (size + 1))) ∧
        ((method.unpack size payload).intact = true →
          (method.unpack size payload).bytes.length = size →
          packedMagic <+: (method.unpack size payload).bytes →
          decode method limits (packedMagic ++ sized) = .error (.unsupportedFormat 90)) ∧
        ∀ other : Compression, other.unpack size payload = method.unpack size payload →
          decode other limits (packedMagic ++ sized) =
            decode method limits (packedMagic ++ sized) := by
  have settled (method : Compression) {groups payload : Bytes} {size : Nat}
      (same : sized = groups ++ payload) (spelled : SpellsVarint groups size)
      (allowed : size ≤ limits.documentSize) :
      decode method limits (packedMagic ++ sized) =
        (method.unpack size payload).expected size >>= decodePlain limits := by
    rw [decode_packedMagic, same, unpackSized_spelled spelled allowed]
  constructor
  · intro d
    constructor
    · intro accepted
      have unpacked := accepted
      rw [decode_packedMagic] at unpacked
      obtain ⟨bytes, found, -⟩ := bind_eq_ok.mp unpacked
      obtain ⟨groups, payload, size, same, spelled, allowed⟩ := spelled_of_unpackSized found
      rw [settled method same spelled allowed] at accepted
      obtain ⟨plain, honest, read⟩ := bind_eq_ok.mp accepted
      obtain ⟨intact, exact_size, rfl⟩ := Stream.expected_eq_ok.mp honest
      exact ⟨groups, payload, size, same, spelled, allowed, intact, exact_size,
        plainMagic_of_decodePlain read, read⟩
    · rintro ⟨groups, payload, size, same, spelled, allowed, intact, exact_size, -, read⟩
      rw [settled method same spelled allowed,
        Stream.expected_eq_ok.mpr ⟨intact, exact_size, rfl⟩]
      exact read
  · intro groups payload size same spelled allowed
    have settles := expected_settles limits size (method.unpack size payload)
    rw [← settled method same spelled allowed] at settles
    refine ⟨settles, fun longer other begins => ?_, fun intact exact_size marked => ?_,
      fun other alike => ?_⟩
    · rw [settled other same spelled allowed, Stream.expected_longer longer begins]
      rfl
    · rw [settles.honest intact exact_size]
      exact decodePlain_packedMagic marked (by omega)
    · rw [settled other same spelled allowed, settled method same spelled allowed, alike]

def swollenPayload : Bytes :=
  [40, 181, 47, 253, 96, 147, 18, 88, 0, 0] ++ plainMagic ++ [1, 1, 1, 115, 4, 136, 39] ++
    [67, 156, 0, 122]

def nestedPayload : Bytes := [40, 181, 47, 253, 32, 6, 49, 0, 0] ++ packedMagic ++ [0]

theorem swollen_and_nested_refused :
    SpellsVarint [100] 100 ∧ 100 ≤ Limits.caps.documentSize ∧
      100 < (storedFrames.unpack 100 swollenPayload).bytes.length ∧
      decode storedFrames .caps (packedMagic ++ ([100] ++ swollenPayload)) =
        .error (.sizeMismatch 100 101) ∧
      SpellsVarint [6] 6 ∧ (storedFrames.unpack 6 nestedPayload).intact = true ∧
      (storedFrames.unpack 6 nestedPayload).bytes.length = 6 ∧
      packedMagic <+: (storedFrames.unpack 6 nestedPayload).bytes ∧
      decode storedFrames .caps (packedMagic ++ ([6] ++ nestedPayload)) =
        .error (.unsupportedFormat 90) := by
  have hundred : SpellsVarint [100] 100 := ⟨.last (by decide), by decide, by decide⟩
  have six : SpellsVarint [6] 6 := ⟨.last (by decide), by decide, by decide⟩
  have allowed : 100 ≤ Limits.caps.documentSize := by decide
  have longer : 100 < (storedFrames.unpack 100 swollenPayload).bytes.length := by decide +kernel
  have intact : (storedFrames.unpack 6 nestedPayload).intact = true := by decide +kernel
  have exact_size : (storedFrames.unpack 6 nestedPayload).bytes.length = 6 := by decide +kernel
  have marked : packedMagic <+: (storedFrames.unpack 6 nestedPayload).bytes := by decide +kernel
  obtain ⟨-, swollen⟩ :=
    packed_accepted_iff_honest storedFrames .caps ([100] ++ swollenPayload)
  obtain ⟨-, cut, -, -⟩ := swollen _ _ _ rfl hundred allowed
  obtain ⟨-, nested⟩ := packed_accepted_iff_honest storedFrames .caps ([6] ++ nestedPayload)
  obtain ⟨-, -, unread, -⟩ := nested _ _ _ rfl six (by decide)
  exact ⟨hundred, allowed, longer, cut longer storedFrames rfl, six, intact, exact_size, marked,
    unread intact exact_size marked⟩

end EntityCatalog
