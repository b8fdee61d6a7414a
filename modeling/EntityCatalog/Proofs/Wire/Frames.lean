import EntityCatalog.Wire.Unpacking

/- Frames of stored blocks unpack to the bytes they were made from. While no more bytes have been
   found than are expected, some request of the reader is open, so unpacking goes on and each piece
   of a block is added to what was found before. -/
namespace EntityCatalog
namespace Frame

structure Progress.Holds (progress : Progress) (size : Nat) (bytes : Bytes) : Prop where
  size_eq : progress.size = size
  start_le : progress.request.start ≤ size
  length_eq : progress.length = bytes.length
  content_eq : progress.content.bytes = bytes

theorem request_past_start_le (size : Nat) (request : Request) (reached : Nat) :
    (request.past size reached).start ≤ reached := by
  fun_induction Request.past size request reached with
  | case1 => assumption
  | case2 request =>
    have start : (request.next size (min reached request.stop)).start =
        min reached request.stop := by
      unfold Request.next
      split <;> rfl
    omega

section
variable {progress : Progress} {size : Nat} {bytes : Bytes}

theorem answer_holds (holds : progress.Holds size bytes) (within : bytes.length ≤ size) :
    progress.answer.Holds size bytes := by
  unfold Progress.answer
  split
  · refine ⟨holds.size_eq, ?_, holds.length_eq, holds.content_eq⟩
    have length := holds.length_eq
    unfold Request.next
    split <;> simp only [Request.ofStart] <;> omega
  · exact holds

theorem not_served (holds : progress.Holds size bytes) : progress.isServed = false := by
  have start := holds.start_le
  have same := holds.size_eq
  simp only [Progress.isServed, decide_eq_false_iff_not]
  omega

theorem more_holds (holds : progress.Holds size bytes) (within : bytes.length ≤ size) :
    ∃ next, progress.more = .ok next ∧ next.Holds size bytes ∧ 0 < next.atHand := by
  have answered := answer_holds holds within
  refine ⟨{ progress.answer with atHand := progress.atHand + portionLength }, ?_, ?_, ?_⟩
  · simp only [Progress.more, not_served answered, Bool.false_eq_true, if_false]
  · exact ⟨answered.size_eq, answered.start_le, answered.length_eq, answered.content_eq⟩
  · exact Nat.add_pos_right _ (by decide)

theorem await_holds (holds : progress.Holds size bytes) (within : bytes.length ≤ size) :
    ∃ next, progress.await = .ok next ∧ next.Holds size bytes ∧ 0 < next.atHand := by
  unfold Progress.await
  split
  · exact more_holds holds within
  · exact ⟨progress, rfl, holds, by omega⟩

theorem skip_holds (count : Nat) (holds : progress.Holds size bytes) :
    (progress.skip count).Holds size bytes :=
  ⟨holds.size_eq, holds.start_le, holds.length_eq, holds.content_eq⟩

theorem use_holds (count : Nat) (holds : progress.Holds size bytes)
    (within : bytes.length ≤ size) :
    ∃ next, progress.use count = .ok next ∧ next.Holds size bytes := by
  unfold Progress.use
  split
  · exact ⟨_, rfl, skip_holds count holds⟩
  · obtain ⟨next, more, kept, _⟩ := more_holds holds within
    exact ⟨next.skip count, by rw [more]; rfl, skip_holds count kept⟩

theorem add_holds (run : Run) (holds : progress.Holds size bytes)
    (within : bytes.length + run.bytes.length ≤ size) :
    ∃ next, progress.add run run.bytes.length = .ok next ∧
      next.Holds size (bytes ++ run.bytes) := by
  have length := holds.length_eq
  have start := holds.start_le
  have past := request_past_start_le size progress.request (progress.length + run.bytes.length)
  have added : Progress.Holds
      { progress with
        found := run :: progress.found
        length := progress.length + run.bytes.length
        request :=
          if progress.length + run.bytes.length ≤ progress.request.stop then progress.request
          else progress.request.past progress.size (progress.length + run.bytes.length) }
      size (bytes ++ run.bytes) := by
    refine ⟨holds.size_eq, ?_, ?_, ?_⟩
    · rw [holds.size_eq]
      split
      · exact start
      · exact Nat.le_trans past (by omega)
    · rw [List.length_append, length]
    · have before := holds.content_eq
      simp only [Progress.content, Stream.bytes] at before ⊢
      rw [List.reverse_cons, List.flatMap_append, before]
      simp
  exact ⟨_, by simp only [Progress.add, not_served added, Bool.false_eq_true, if_false], added⟩

end

theorem readStored_whole {header : Header} (unsized : header.contentLength = none)
    (isLast : Bool) (left length : Nat) {progress : Progress} {size : Nat}
    (before data rest : Bytes) (data_length : data.length = left) (some_left : 0 < left)
    (holds : progress.Holds size before) (within : before.length + left ≤ size) :
    ∃ next, readStored header isLast left length progress (data ++ rest) =
        .ok (length + left, next, rest) ∧ next.Holds size (before ++ data) := by
  induction left using Nat.strongRecOn generalizing length progress before data with
  | ind left ih =>
    obtain ⟨ready, awaited, open_ready, at_hand⟩ := await_holds holds (by omega)
    obtain ⟨count, count_eq⟩ : ∃ count, count = min left ready.atHand := ⟨_, rfl⟩
    have piece : (data ++ rest).take count = data.take count := by
      rw [List.take_append_of_le_length (by omega)]
    have piece_length : (data.take count).length = count := by
      rw [List.length_take]
      omega
    obtain ⟨next, added, kept⟩ := add_holds (.literal (data.take count))
      (skip_holds count open_ready) (by simp only [Run.bytes]; omega)
    simp only [Run.bytes] at added kept
    rw [piece_length] at added
    have held : ready.memory.holds header (length + count) = true := by
      simp [Memory.holds, unsized]
    have admitted : header.admits (length + count) = true := by simp [Header.admits, unsized]
    have remainder : (data ++ rest).drop count = data.drop count ++ rest := by
      rw [List.drop_append_of_le_length (by omega)]
    rw [readStored, awaited]
    simp only [← count_eq, piece, piece_length, held, admitted, Bool.true_eq_false, and_false,
      if_false, added, remainder, dif_neg (by omega : ¬ count = 0)]
    split
    · have all : count = left := by omega
      refine ⟨next, ?_, ?_⟩
      · simp [all, ← data_length]
      · rwa [List.take_of_length_le (by omega)] at kept
    · obtain ⟨last, read, found⟩ := ih (left - count) (by omega) (length + count)
        (before ++ data.take count) (data.drop count) (by rw [List.length_drop]; omega) (by omega)
        kept (by rw [List.length_append]; omega)
      refine ⟨last, ?_, ?_⟩
      · rw [read]
        simp only [Except.ok.injEq, Prod.mk.injEq, and_true]
        omega
      · rwa [List.append_assoc, List.take_append_drop] at found

theorem littleEndian_storedHeader (isLast : Bool) {size : Nat} (small : size < 2097152) :
    littleEndian (storedHeader isLast size) = size * 8 + if isLast then 1 else 0 := by
  have flag : (if isLast then 1 else 0) < 2 := by split <;> decide
  simp only [littleEndian, storedHeader, List.foldr_cons, List.foldr_nil, UInt8.toNat_ofNat']
  omega

theorem readContent_stored {header : Header} (isLast : Bool) {size : Nat}
    (small : size < 2097152) (length : Nat) {progress next : Progress} (input : Bytes)
    (used : progress.use 3 = .ok next) :
    readContent header length progress (storedHeader isLast size ++ input) =
      match readBlock header ⟨isLast, .stored, size⟩ length next input with
      | .error stream => .error stream
      | .ok (total, last, after) =>
          if isLast then .ok (last, after) else readContent header total last after := by
  have code := littleEndian_storedHeader isLast small
  obtain ⟨b0, b1, b2, bytes⟩ : ∃ b0 b1 b2, storedHeader isLast size = [b0, b1, b2] :=
    ⟨_, _, _, rfl⟩
  rw [bytes] at code ⊢
  have block : Block.ofBytes b0 b1 b2 = ⟨isLast, .stored, size⟩ := by
    cases isLast with
    | false =>
      have kind : size * 8 / 2 % 4 = 0 := by omega
      simp [Block.ofBytes, code, kind]
      omega
    | true =>
      have kind : (size * 8 + 1) / 2 % 4 = 0 := by omega
      have whole : (size * 8 + 1) / 8 = size := by omega
      simp [Block.ofBytes, code, kind, whole]
      omega
  simp only [List.cons_append, List.nil_append]
  rw [readContent, used, block]
  dsimp only
  split
  · rename_i broken
    rw [broken]
  · rename_i read
    rw [read]

theorem readBlock_stored {header : Header} (unsized : header.contentLength = none)
    (isLast : Bool) (length : Nat) {progress : Progress} {size : Nat} (before data rest : Bytes)
    (small : data.length ≤ header.blockLimit) (holds : progress.Holds size before)
    (within : before.length + data.length ≤ size) :
    ∃ next, readBlock header ⟨isLast, .stored, data.length⟩ length progress (data ++ rest) =
        .ok (length + data.length, next, rest) ∧ next.Holds size (before ++ data) := by
  have extent : (Block.mk isLast .stored data.length).extent = data.length := rfl
  have accepted : ¬ ((Block.mk isLast .stored data.length).kind = .reserved ∨
      header.blockLimit < data.length) := by
    rintro (reserved | long)
    · contradiction
    · omega
  unfold readBlock
  rw [extent, if_neg accepted]
  split
  · rename_i empty
    have none_left : data = [] := List.length_eq_zero_iff.mp empty
    subst none_left
    exact ⟨progress, by simp, by simpa using holds⟩
  · rename_i some_left
    exact readStored_whole unsized isLast data.length length before data rest rfl (by omega) holds
      within

theorem readContent_writeBlocks {header : Header} (unsized : header.contentLength = none)
    (limit : header.blockLimit = maxBlockLength) (bytes : Bytes) :
    ∃ blocks : Bytes, (∀ out, (writeBlocks out bytes).toList = out.toList ++ blocks) ∧
      ∀ (size length : Nat) (progress : Progress) (before : Bytes), progress.Holds size before →
        before.length + bytes.length ≤ size →
          ∃ next, readContent header length progress blocks = .ok (next, []) ∧
            next.Holds size (before ++ bytes) := by
  induction count : bytes.length using Nat.strongRecOn generalizing bytes with
  | ind count ih =>
    obtain ⟨block, block_eq⟩ : ∃ block, block = bytes.take maxBlockLength := ⟨_, rfl⟩
    obtain ⟨later, later_eq⟩ : ∃ later, later = bytes.drop maxBlockLength := ⟨_, rfl⟩
    have whole : block ++ later = bytes := by
      rw [block_eq, later_eq]
      exact List.take_append_drop _ _
    have small : block.length ≤ maxBlockLength := by
      rw [block_eq]
      exact List.length_take_le _ _
    have short : block.length < 2097152 := Nat.lt_of_le_of_lt small (by decide)
    have total : block.length + later.length = bytes.length := by
      rw [← whole, List.length_append]
    by_cases last : later = []
    · refine ⟨storedHeader true block.length ++ block, ?_, ?_⟩
      · intro out
        rw [writeBlocks]
        simp [← block_eq, ← later_eq, last]
      · intro size length progress before holds within
        obtain ⟨ready, used, kept⟩ := use_holds 3 holds (by omega)
        obtain ⟨next, read, found⟩ := readBlock_stored unsized true length before block []
          (by omega) kept (by omega)
        refine ⟨next, ?_, ?_⟩
        · rw [readContent_stored true short length block used]
          rw [List.append_nil] at read
          simp only [read, if_true]
        · rwa [← whole, last, List.append_nil]
    · have shorter : later.length < bytes.length := by
        have := List.length_pos_iff.mpr last
        rw [later_eq, List.length_drop] at this ⊢
        have : 0 < maxBlockLength := by decide
        omega
      obtain ⟨blocks, written, read_all⟩ := ih later.length (by omega) later rfl
      refine ⟨storedHeader false block.length ++ (block ++ blocks), ?_, ?_⟩
      · intro out
        rw [writeBlocks]
        simp [← block_eq, ← later_eq, last, written]
      · intro size length progress before holds within
        obtain ⟨ready, used, kept⟩ := use_holds 3 holds (by omega)
        obtain ⟨next, read, found⟩ := readBlock_stored unsized false length before block blocks
          (by omega) kept (by omega)
        obtain ⟨final, rest_read, all_found⟩ := read_all size (length + block.length) next
          (before ++ block) found (by rw [List.length_append]; omega)
        refine ⟨final, ?_, ?_⟩
        · rw [readContent_stored false short length (block ++ blocks) used]
          simp only [read, Bool.false_eq_true, if_false, rest_read]
        · rwa [List.append_assoc, whole] at all_found

def storedFrameHeader : Header := ⟨none, maxBlockLength, 6⟩

theorem readHeader?_header (blocks : Bytes) :
    readHeader? (header ++ blocks) = some storedFrameHeader := by
  have window : windowLength 0x38 = maxBlockLength := by decide
  have code : contentLengthWidth 0 false = 0 := by decide
  have supported : 56 ≤ maxWindowDescriptor := by decide
  simp [readHeader?, header, magic, code, contentLength?, supported, window, storedFrameHeader]

theorem leap_holds {progress : Progress} {size : Nat} {bytes : Bytes} (count : Nat)
    (memory : Memory) (holds : progress.Holds size bytes) :
    Progress.Holds { progress.leap count with memory } size bytes := by
  unfold Progress.leap
  split
  · exact ⟨holds.size_eq, holds.start_le, holds.length_eq, holds.content_eq⟩
  · exact ⟨holds.size_eq, holds.start_le, holds.length_eq, holds.content_eq⟩

theorem start_holds (size atHand : Nat) :
    Progress.Holds { Progress.start size with atHand } size [] := by
  refine ⟨rfl, ?_, rfl, rfl⟩
  simp only [Progress.start, Request.first, Request.ofStart]
  omega

theorem readFrame_stored (blocks : Bytes) (size : Nat) (bytes : Bytes)
    (read : ∀ progress : Progress, progress.Holds size [] →
      ∃ next, readContent storedFrameHeader 0 progress blocks = .ok (next, []) ∧
        next.Holds size bytes) :
    ∃ next, readFrame (.start size) (header ++ blocks) = .ok (next, []) ∧
      next.Holds size bytes := by
  have unsized : ∀ progress, readAtOnce? storedFrameHeader progress (header ++ blocks) = none := by
    intro progress
    simp [readAtOnce?, storedFrameHeader]
  have window : ¬ maxWindow < storedFrameHeader.window := by decide
  have behind : (header ++ blocks).drop storedFrameHeader.extent = blocks :=
    List.drop_left' (by decide)
  obtain ⟨next, content, found⟩ := read _ (leap_holds storedFrameHeader.extent
    ((Progress.start size).memory.suited storedFrameHeader) (start_holds size portionLength))
  refine ⟨next, ?_, found⟩
  simp only [readFrame, readHeader?_header, readAfter, unsized, if_neg window, behind]
  exact content

end Frame

theorem storedFrames_faithful : storedFrames.Faithful := by
  intro level bytes payload made
  obtain ⟨blocks, written, read⟩ := Frame.readContent_writeBlocks
    (rfl : Frame.storedFrameHeader.contentLength = none) (by decide) bytes
  have form : payload = Frame.header ++ blocks := by
    simpa [storedFrames, written] using made.symm
  obtain ⟨next, frame, found⟩ := Frame.readFrame_stored blocks bytes.length bytes
    fun progress holds => by simpa using read bytes.length 0 progress [] holds (by simp)
  have unpacked : storedFrames.unpack bytes.length payload = next.content := by
    rw [form]
    show Frame.readFrames _ _ = _
    rw [Frame.readFrames]
    split
    · rename_i broken
      rw [broken] at frame
      contradiction
    · rename_i last rest whole
      rw [whole] at frame
      cases frame
      exact if_pos (Or.inr rfl)
  rw [unpacked]
  exact ⟨found.content_eq, rfl⟩

end EntityCatalog
