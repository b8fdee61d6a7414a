import EntityCatalog.Proofs.Wire.Accepted

/- Where readers stop. A reader finds its value in the bytes it uses up, whatever comes behind them,
   and on a part of these bytes it runs out of input. So an accepted input is not the beginning of
   another one: cut short it ends too early, and with more behind it there are bytes left over. -/
namespace EntityCatalog
variable {α β : Type}

/-- The reader comes to the end of the bytes before it has found a value. -/
def RunsOut (read : Cursor → Reply α) (bytes : Bytes) : Prop :=
  ∀ position, ∃ reading stop, read ⟨position, bytes⟩ = .failed (.endOfInput reading) stop

namespace RunsOut
variable {read : Cursor → Reply α}

theorem andThen {bytes : Bytes} (early : RunsOut read bytes) (onward : α → Cursor → Reply β) :
    RunsOut (fun cursor => (read cursor).andThen onward) bytes := by
  intro position
  obtain ⟨reading, stop, ended⟩ := early position
  exact ⟨reading, stop, by simp only [ended, Reply.andThen_failed]⟩

theorem map {bytes : Bytes} (early : RunsOut read bytes) (f : α → β) :
    RunsOut (fun cursor => (read cursor).map f) bytes := by
  intro position
  obtain ⟨reading, stop, ended⟩ := early position
  exact ⟨reading, stop, by simp only [ended, Reply.map_failed]⟩

theorem behind {onward : α → Cursor → Reply β} {bytes front : Bytes} {value : α}
    (here : Reads read bytes value) (early : RunsOut (onward value) front) :
    RunsOut (fun cursor => (read cursor).andThen onward) (bytes ++ front) := by
  intro position
  obtain ⟨reading, stop, ended⟩ := early (position + bytes.length)
  exact ⟨reading, stop, by simp only [here position front, Reply.andThen_done, ended]⟩

end RunsOut

structure Delimits (read : Cursor → Reply α) (bytes : Bytes) (value : α) : Prop where
  whole : Reads read bytes value
  cut : ∀ front missing, missing ≠ [] → bytes = front ++ missing → RunsOut read front

namespace Delimits

theorem nothing {read : Cursor → Reply α} {value : α} (here : Reads read [] value) :
    Delimits read [] value := by
  constructor
  · exact here
  · intro front missing some_missing split
    exact absurd (List.append_eq_nil_iff.mp split.symm).2 some_missing

theorem andThen {read : Cursor → Reply α} {onward : α → Cursor → Reply β} {first second : Bytes}
    {value : α} {result : β} (here : Delimits read first value)
    (after : Delimits (onward value) second result) :
    Delimits (fun cursor => (read cursor).andThen onward) (first ++ second) result := by
  -- A cut falls into the bytes of the first reader, or it leaves these whole.
  constructor
  · exact here.whole.andThen after.whole
  · intro front missing some_missing split
    rcases List.append_eq_append_iff.mp split with ⟨more, rfl, inside⟩ | ⟨rest, whole, beyond⟩
    · exact RunsOut.behind here.whole (after.cut more missing some_missing inside)
    · by_cases none : rest = []
      · subst none
        rw [List.append_nil] at whole
        subst whole
        have early := after.cut [] missing some_missing beyond.symm
        have joined := RunsOut.behind here.whole early
        rwa [List.append_nil] at joined
      · exact (here.cut front rest none whole).andThen onward

theorem map {read : Cursor → Reply α} {bytes : Bytes} {value : α} (f : α → β)
    (here : Delimits read bytes value) :
    Delimits (fun cursor => (read cursor).map f) bytes (f value) := by
  constructor
  · exact here.whole.map f
  · intro front missing some_missing split
    exact (here.cut front missing some_missing split).map f

end Delimits

def SelfDelimiting (read : Cursor → Reply α) : Prop :=
  ∀ cursor value next, read cursor = .done value next →
    ∃ bytes, cursor.rest = bytes ++ next.rest ∧ Delimits read bytes value

namespace SelfDelimiting
variable {read : Cursor → Reply α}

theorem done (value : α) : SelfDelimiting (Reply.done value) := by
  intro cursor found next same
  cases same
  exact ⟨[], rfl, Delimits.nothing (Reads.done value)⟩

theorem failed (fault : ReadFault) : SelfDelimiting (Reply.failed (α := α) fault) := by
  intro cursor found next same
  cases same

theorem andThen {onward : α → Cursor → Reply β} (here : SelfDelimiting read)
    (after : ∀ value, SelfDelimiting (onward value)) :
    SelfDelimiting fun cursor => (read cursor).andThen onward := by
  intro cursor result last found
  obtain ⟨value, next, first, onward_found⟩ := Reply.andThen_eq_done.mp found
  obtain ⟨bytes, used, whole⟩ := here cursor value next first
  obtain ⟨more, used_on, whole_on⟩ := after value next result last onward_found
  refine ⟨bytes ++ more, ?_, whole.andThen whole_on⟩
  rw [used, used_on, List.append_assoc]

theorem map (here : SelfDelimiting read) (f : α → β) :
    SelfDelimiting fun cursor => (read cursor).map f := by
  intro cursor result next found
  obtain ⟨value, first, rfl⟩ := Reply.map_eq_done.mp found
  obtain ⟨bytes, used, whole⟩ := here cursor value next first
  exact ⟨bytes, used, whole.map f⟩

end SelfDelimiting

theorem readByte_delimited (reading : String) : SelfDelimiting (Cursor.readByte reading) := by
  intro cursor byte next found
  unfold Cursor.readByte at found
  cases bytes : cursor.rest with
  | nil =>
    simp only [bytes] at found
    cases found
  | cons first others =>
    simp only [bytes] at found
    cases found
    refine ⟨[byte], rfl, byte_reads_back reading byte, ?_⟩
    intro front missing some_missing split position
    cases front with
    | nil => exact ⟨reading, ⟨position, []⟩, rfl⟩
    | cons same rest =>
      have nothing := (List.append_eq_nil_iff.mp (List.cons.inj split).2.symm).2
      exact absurd nothing some_missing

theorem splitExactly_eq_none {count : Nat} {input : Bytes} (few : input.length < count)
    (taken : Bytes) : Cursor.splitExactly count taken input = none := by
  induction count generalizing taken input with
  | zero => exact absurd few (Nat.not_lt_zero _)
  | succ count ih =>
    cases input with
    | nil => rfl
    | cons byte others => exact ih (Nat.lt_of_succ_lt_succ few) (byte :: taken)

theorem readBytes_delimited (count : Nat) (reading : String) :
    SelfDelimiting (Cursor.readBytes count reading) := by
  intro cursor bytes next found
  unfold Cursor.readBytes at found
  split at found
  · cases found
  · rename_i taken rest split
    cases found
    obtain ⟨data, length, input, same⟩ := splitExactly_eq_some split
    rw [List.reverse_nil, List.nil_append] at same
    subst same length
    refine ⟨bytes, input, bytes_read_back reading bytes, ?_⟩
    intro front missing some_missing whole position
    have fewer : front.length < bytes.length := by
      have positive := List.length_pos_iff.mpr some_missing
      rw [whole, List.length_append]
      omega
    refine ⟨reading, ⟨position, front⟩, ?_⟩
    simp only [Cursor.readBytes, splitExactly_eq_none fewer]

theorem readBool_delimited (reading : String) : SelfDelimiting (Cursor.readBool reading) := by
  apply (readByte_delimited reading).andThen
  intro byte
  by_cases zero : byte = 0
  · simp only [if_pos zero]
    exact .done false
  · by_cases one : byte = 1
    · simp only [if_neg zero, if_pos one]
      exact .done true
    · simp only [if_neg zero, if_neg one]
      exact .failed _

theorem readGroups_delimited (reading : String) (left weight sum : Nat) :
    SelfDelimiting (Cursor.readGroups reading left weight sum) := by
  induction left generalizing weight sum with
  | zero => exact .failed _
  | succ left ih =>
    apply (readByte_delimited reading).andThen
    intro byte
    by_cases large : UInt64.size ≤ sum + byte.toNat % 128 * weight
    · simp only [if_pos large]
      exact .failed _
    · by_cases last : byte.toNat < 128
      · simp only [if_neg large, if_pos last]
        exact .done _
      · simp only [if_neg large, if_neg last]
        exact ih (weight * 128) (sum + byte.toNat % 128 * weight)

theorem readVarint_delimited (reading : String) : SelfDelimiting (Cursor.readVarint reading) :=
  readGroups_delimited reading maxVarintLength 1 0

theorem readSigned_delimited (reading : String) : SelfDelimiting (Cursor.readSigned reading) :=
  (readVarint_delimited reading).map unzigzag

theorem readLength_delimited (limit : Nat) (part : String) :
    SelfDelimiting (Cursor.readLength limit part) := by
  apply (readVarint_delimited part).andThen
  intro length
  by_cases large : limit < length
  · simp only [if_pos large]
    exact .failed _
  · simp only [if_neg large]
    exact .done length

theorem readString_delimited (limit : Nat) (part : String) :
    SelfDelimiting (Cursor.readString limit part) := by
  apply (readLength_delimited limit part).andThen
  intro length
  apply (readBytes_delimited length part).andThen
  intro bytes
  cases ofUtf8? bytes with
  | none => exact .failed _
  | some text => exact .done text

theorem readTag_delimited : SelfDelimiting readTag := by
  apply (readByte_delimited "value_tag").andThen
  intro byte
  cases Tag.ofByte? byte with
  | none => exact .failed _
  | some tag => exact .done tag

theorem readInt32_delimited : SelfDelimiting readInt32 := by
  apply (readSigned_delimited "int32").andThen
  intro number
  by_cases range : Int32.minValue.toInt ≤ number ∧ number ≤ Int32.maxValue.toInt
  · simp only [if_pos range]
    exact .done _
  · simp only [if_neg range]
    exact .failed _

theorem readMany_delimited {readItem : Cursor → Reply α} (each : SelfDelimiting readItem)
    (count : Nat) (taken : List α) : SelfDelimiting (readMany readItem count taken) := by
  induction count generalizing taken with
  | zero => exact .done _
  | succ count ih =>
    apply each.andThen
    intro item
    exact ih (item :: taken)

section
variable {limits : Limits}

theorem readFields_delimited {readValue : Cursor → Reply Value} (each : SelfDelimiting readValue)
    (count : Nat) (d : Document) : SelfDelimiting (readFields limits readValue count d) := by
  induction count generalizing d with
  | zero => exact .done d
  | succ count ih =>
    apply (readString_delimited limits.stringLength "field_name").andThen
    intro name
    apply each.andThen
    intro value
    exact ih (d.set name value)

theorem readDocument_delimited {readValue : Cursor → Reply Value}
    (each : SelfDelimiting readValue) : SelfDelimiting (readDocument limits readValue) := by
  apply (readLength_delimited maxFields "field_count").andThen
  intro count
  exact readFields_delimited each count .empty

theorem readPayload_delimited {readInner? : Option (Cursor → Reply Value)}
    (inner : ∀ readInner ∈ readInner?, SelfDelimiting readInner) (tag : Tag) :
    SelfDelimiting (readPayload limits readInner? tag) := by
  cases tag with
  | null => exact .done _
  | bool => exact (readBool_delimited "bool").map _
  | int32 => exact readInt32_delimited
  | int64 => exact (readSigned_delimited "int64").map _
  | string => exact (readString_delimited limits.stringLength "string").map _
  | array =>
    cases readInner? with
    | none => exact .failed _
    | some readInner =>
      apply (readLength_delimited limits.arrayLength "array_len").andThen
      intro count
      exact (readMany_delimited (inner readInner rfl) count []).map _
  | document =>
    cases readInner? with
    | none => exact .failed _
    | some readInner => exact (readDocument_delimited (inner readInner rfl)).map _

theorem readValue_delimited (limits : Limits) (room : Nat) :
    SelfDelimiting (readValue limits room) := by
  -- By induction on how many containers may be nested.
  induction room with
  | zero =>
    apply readTag_delimited.andThen
    intro tag
    apply readPayload_delimited
    intro readInner found
    cases found
  | succ room ih =>
    apply readTag_delimited.andThen
    intro tag
    apply readPayload_delimited
    intro readInner found
    cases found
    exact ih

end

theorem decodePlain_formHeader (limits : Limits) (body : Bytes) :
    decodePlain limits (formHeader ++ body) =
      if limits.documentSize < (formHeader ++ body).length then
        .error (.tooLong "document" (formHeader ++ body).length limits.documentSize)
      else
        match readDocument limits (readValue limits limits.depth) ⟨1, body⟩ with
        | .failed fault _ => .error fault
        | .done d stop =>
            if stop.rest = [] then .ok d else .error (.trailingBytes stop.rest.length) := by
  rfl

theorem formHeader_of_decodePlain {limits : Limits} {input : Bytes} {d : Document}
    (accepted : decodePlain limits input = .ok d) : ∃ body, input = formHeader ++ body := by
  unfold decodePlain at accepted
  split at accepted
  · cases accepted
  · rename_i magic
    split at accepted
    · cases accepted
    · split at accepted
      · cases accepted
      · rename_i version next first
        split at accepted
        · cases accepted
        · rename_i supported
          obtain ⟨rest, rfl⟩ := List.isPrefixOf_iff_prefix.mp (Bool.not_eq_false _ ▸ magic)
          cases rest with
          | nil => cases first
          | cons byte body =>
            cases first
            obtain ⟨new_enough, old_enough⟩ := not_or.mp supported
            have same : version = currentFormat :=
              UInt8.le_antisymm (UInt8.not_lt.mp old_enough) (UInt8.not_lt.mp new_enough)
            subst same
            exact ⟨body, rfl⟩

theorem decodePlain_eq_ok {limits : Limits} {input : Bytes} {d : Document}
    (accepted : decodePlain limits input = .ok d) :
    ∃ body, input = formHeader ++ body ∧ input.length ≤ limits.documentSize ∧
      Delimits (readDocument limits (readValue limits limits.depth)) body d := by
  obtain ⟨body, rfl⟩ := formHeader_of_decodePlain accepted
  rw [decodePlain_formHeader] at accepted
  split at accepted
  · cases accepted
  · rename_i small
    split at accepted
    · cases accepted
    · rename_i found stop read
      split at accepted
      · rename_i finished
        cases accepted
        obtain ⟨bytes, used, whole⟩ :=
          readDocument_delimited (readValue_delimited limits limits.depth) _ _ _ read
        rw [finished, List.append_nil] at used
        subst used
        exact ⟨body, rfl, Nat.not_lt.mp small, whole⟩
      · cases accepted

theorem decode_formHeader (method : Compression) (limits : Limits) (body : Bytes) :
    decode method limits (formHeader ++ body) = decodePlain limits (formHeader ++ body) := by
  rfl

theorem decode_header_cut (method : Compression) {limits : Limits} {front missing : Bytes}
    (some_missing : missing ≠ []) (split : formHeader = front ++ missing)
    (small : front.length ≤ limits.documentSize) :
    ∃ reading, decode method limits front = .error (.endOfInput reading) := by
  -- A part of a header is too short to tell what it is, or it lacks the version.
  by_cases short : front.length < plainMagic.length
  · refine ⟨"magic", ?_⟩
    unfold decode
    rw [if_pos short]
  · have counted : plainMagic.length + 1 = front.length + missing.length := by
      have lengths := congrArg List.length split
      rwa [formHeader, List.length_append, List.length_append] at lengths
    have positive := List.length_pos_iff.mpr some_missing
    have same_length : plainMagic.length = front.length := by omega
    have same : plainMagic = front := (List.append_inj split same_length).1
    subst same
    refine ⟨"version", ?_⟩
    change decodePlain limits plainMagic = _
    unfold decodePlain
    rw [if_neg (by decide), if_neg (Nat.not_lt.mpr small)]
    rfl

theorem decode_body_cut (method : Compression) {limits : Limits} {front body missing : Bytes}
    {d : Document} (whole : Delimits (readDocument limits (readValue limits limits.depth)) body d)
    (some_missing : missing ≠ []) (split : body = front ++ missing)
    (small : (formHeader ++ front).length ≤ limits.documentSize) :
    ∃ reading, decode method limits (formHeader ++ front) = .error (.endOfInput reading) := by
  obtain ⟨reading, stop, ended⟩ := whole.cut front missing some_missing split 1
  refine ⟨reading, ?_⟩
  rw [decode_formHeader, decodePlain_formHeader, if_neg (Nat.not_lt.mpr small), ended]

theorem decode_cut (method : Compression) {limits : Limits} {front body missing : Bytes}
    {d : Document} (whole : Delimits (readDocument limits (readValue limits limits.depth)) body d)
    (some_missing : missing ≠ []) (split : formHeader ++ body = front ++ missing)
    (small : front.length ≤ limits.documentSize) :
    ∃ reading, decode method limits front = .error (.endOfInput reading) := by
  rcases List.append_eq_append_iff.mp split with ⟨more, rfl, inside⟩ | ⟨rest, header, beyond⟩
  · exact decode_body_cut method whole some_missing inside small
  · by_cases none : rest = []
    · rw [none, List.append_nil] at header
      rw [none] at beyond
      subst header
      have nothing_read : body = [] ++ missing := beyond.symm
      have early := decode_body_cut method whole some_missing nothing_read
        (by rwa [List.append_nil])
      rwa [List.append_nil] at early
    · exact decode_header_cut method none header small

/-- An accepted plain input is not accepted when it breaks off early, and nothing may follow it. -/
theorem accepted_bytes_delimited (method : Compression) (limits : Limits) (input : Bytes)
    (d : Document) (plain : isPacked input = false)
    (accepted : decode method limits input = .ok d) :
    (∀ front, front <+: input → front ≠ input →
      ∃ reading, decode method limits front = .error (.endOfInput reading)) ∧
    ∀ extra, extra ≠ [] →
      decode method limits (input ++ extra) = .error
        (if input.length + extra.length ≤ limits.documentSize then .trailingBytes extra.length
          else .tooLong "document" (input.length + extra.length) limits.documentSize) := by
  have read : decodePlain limits input = .ok d := by
    unfold decode at accepted
    split at accepted
    · cases accepted
    · rwa [plain] at accepted
  obtain ⟨body, rfl, small, whole⟩ := decodePlain_eq_ok read
  constructor
  · intro front before apart
    have shorter := Nat.le_trans before.length_le small
    obtain ⟨missing, split⟩ := before
    have some_missing : missing ≠ [] := by
      intro none
      rw [none, List.append_nil] at split
      exact apart split
    exact decode_cut method whole some_missing split.symm shorter
  · intro extra some_extra
    have found := whole.whole 1 extra
    rw [List.append_assoc, decode_formHeader, decodePlain_formHeader, found, ← List.append_assoc,
      List.length_append]
    by_cases allowed : (formHeader ++ body).length + extra.length ≤ limits.documentSize
    · rw [if_pos allowed, if_neg (Nat.not_lt.mpr allowed)]
      simp only [if_neg some_extra]
    · rw [if_neg allowed, if_pos (Nat.not_le.mp allowed)]

/-- The sample breaks off inside the length of its first name. It fills the tightest limits that
    accept it, so that only looser ones tell how many bytes follow. -/
theorem overlong_sample_delimited :
    isPacked overlongSample = false ∧
      decode storedFrames overlongSampleLimits overlongSample = .ok ⟨[("a", .bool true)]⟩ ∧
      (∃ reading, decode storedFrames overlongSampleLimits (overlongSample.take 8) =
        .error (.endOfInput reading)) ∧
      decode storedFrames overlongSampleLimits (overlongSample ++ [7]) =
        .error (.tooLong "document" 16 15) ∧
      decode storedFrames .caps overlongSample = .ok ⟨[("a", .bool true)]⟩ ∧
      decode storedFrames .caps (overlongSample ++ overlongSample) =
        .error (.trailingBytes 15) := by
  have plain : isPacked overlongSample = false := by rfl
  have tight : decode storedFrames overlongSampleLimits overlongSample =
      .ok ⟨[("a", .bool true)]⟩ := by rfl
  have loose : decode storedFrames .caps overlongSample = .ok ⟨[("a", .bool true)]⟩ := by rfl
  obtain ⟨cut, extended⟩ := accepted_bytes_delimited _ _ _ _ plain tight
  obtain ⟨-, extended_within⟩ := accepted_bytes_delimited _ _ _ _ plain loose
  refine ⟨plain, tight, ?_, ?_, loose, ?_⟩
  · exact cut (overlongSample.take 8) (List.take_prefix 8 _) (by decide)
  · exact extended [7] (by decide)
  · exact extended_within overlongSample (by decide)

end EntityCatalog
