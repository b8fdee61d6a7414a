import EntityCatalog.Proofs.Wire.Indexed

/- Any reads one after the other, whether they fail or not. The cursor does not go back and stays
   inside of the input, and what a read finds is settled by the bytes that it goes over. Where the
   bytes were written value by value, the reads find these values. -/
namespace EntityCatalog
open List (Forall₂)

theorem read_delimited (reading : Reading) :
    SelfDelimiting fun cursor => cursor.read reading := by
  cases reading with
  | byte reading => exact (readByte_delimited reading).map _
  | bytes count reading => exact (readBytes_delimited count reading).map _
  | bool reading => exact (readBool_delimited reading).map _
  | varint reading => exact (readVarint_delimited reading).map _
  | signed reading => exact (readSigned_delimited reading).map _
  | length limit part => exact (readLength_delimited limit part).map _
  | string limit part => exact (readString_delimited limit part).map _

namespace IndexedCursor
variable {cursor next other : IndexedCursor} {reading : Reading} {value : Primitive}

theorem read_local (bounds : cursor.InBounds) (read : cursor.read reading = .done value next)
    (other_bounds : other.InBounds)
    (same : other.input.extract other.position
      (other.position + (next.position - cursor.position)) =
        cursor.input.extract cursor.position next.position) :
    other.read reading = .done value (other.moved (next.position - cursor.position)) := by
  -- The two cursors may be on different inputs and in different places of them.
  obtain ⟨found, reached⟩ := (read_mirrors reading).of_done bounds read
  obtain ⟨bytes, used, delimited⟩ := read_delimited reading _ _ _ found
  have split : cursor.unread = bytes ++ next.unread := used
  have count : next.position - cursor.position = bytes.length := by
    have lengths := congrArg List.length split
    have input := congrArg Array.size reached.input
    have inside := reached.inside
    have forward := reached.forward
    rw [List.length_append, unread_length, unread_length, input] at lengths
    omega
  have stop : next.position = cursor.position + bytes.length := by
    have forward := reached.forward
    omega
  have here : (cursor.input.extract cursor.position next.position).toList = bytes := by
    rw [stop, extract_toList, split, List.take_left]
  have there : other.unread.take bytes.length = bytes := by
    rw [← extract_toList, ← count, same, here]
  have other_split := List.take_append_drop bytes.length other.unread
  rw [there] at other_split
  have read_there := delimited.whole other.position (other.unread.drop bytes.length)
  rw [other_split] at read_there
  rw [count]
  exact (read_mirrors reading).done_of other_bounds read_there

theorem read_step (bounds : cursor.InBounds) (reading : Reading) :
    ∃ result next, (∀ rest, cursor.readEach (reading :: rest) =
        (next.readEach rest).map fun (results, last) => (result :: results, last)) ∧
      cursor.Reaches next ∧
      ∀ value, result = .ok value → cursor.read reading = .done value next := by
  have agrees : cursor.Agrees (cursor.read reading) (cursor.cursor.read reading) :=
    read_mirrors reading cursor bounds
  generalize found : cursor.read reading = access, cursor.cursor.read reading = reply at agrees
  cases agrees with
  | @done value next reached =>
    refine ⟨.ok value, next, ?_, reached, ?_⟩
    · intro rest
      simp only [readEach, found]
    · intro other same
      cases same
      rfl
  | @failed fault stop reached =>
    refine ⟨.error fault, stop, ?_, reached, nofun⟩
    intro rest
    simp only [readEach, found]

theorem readEach_inside (bounds : cursor.InBounds) (readings : List Reading) :
    ∃ results last, cursor.readEach readings = some (results, last) ∧
      results.length = readings.length ∧ cursor.Reaches last := by
  -- By induction on the reads. Each of them leaves the cursor in bounds for the next one.
  induction readings generalizing cursor with
  | nil => exact ⟨[], cursor, rfl, rfl, .refl bounds⟩
  | cons reading rest ih =>
    obtain ⟨result, next, onward, reached, -⟩ := read_step bounds reading
    obtain ⟨results, last, read, same_length, reached_on⟩ := ih (reached.inBounds bounds)
    refine ⟨result :: results, last, ?_, congrArg Nat.succ same_length,
      reached.trans reached_on⟩
    rw [onward, read, Option.map_some]

theorem readEach_append (bounds : cursor.InBounds) {middle last : IndexedCursor}
    {first second : List Reading} {results more : List (Except ReadFault Primitive)}
    (here : cursor.readEach first = some (results, middle))
    (after : middle.readEach second = some (more, last)) :
    cursor.readEach (first ++ second) = some (results ++ more, last) := by
  induction first generalizing cursor results with
  | nil =>
    cases here
    exact after
  | cons reading rest ih =>
    obtain ⟨result, next, onward, reached, -⟩ := read_step bounds reading
    rw [onward] at here
    obtain ⟨⟨others, stop⟩, read, same⟩ := Option.map_eq_some_iff.mp here
    cases same
    rw [List.cons_append, onward, ih (reached.inBounds bounds) read, Option.map_some]
    rfl

/-- Reads that all find a value go the same way, whether a failure would end them or not. -/
theorem readEach_of_readAll (bounds : cursor.InBounds) {readings : List Reading}
    {values : List Primitive} {stop : Cursor}
    (read : cursor.cursor.readAll readings = .done values stop) :
    cursor.readEach readings = some (values.map .ok, ⟨cursor.input, stop.position⟩) := by
  induction readings generalizing cursor values with
  | nil =>
    cases read
    rfl
  | cons reading rest ih =>
    have agrees := read_mirrors reading cursor bounds
    cases same : cursor.cursor.read reading with
    | done value place =>
      simp only [same] at agrees
      obtain ⟨next, found, rfl, reached⟩ := agrees.done_of
      rw [Cursor.readAll, same, Reply.andThen_done] at read
      obtain ⟨found_on, others, rfl⟩ := Reply.map_eq_done.mp read
      have read_on := ih (reached.inBounds bounds) others
      rw [reached.input] at read_on
      simp only [readEach, found, read_on, Option.map_some, List.map_cons]
    | failed fault place =>
      rw [Cursor.readAll, same, Reply.andThen_failed] at read
      cases read

/-- Whatever was read before, and whether it was found or not: no read leaves the bounds, what is
    left is what the position says, and the next read goes on from there. If it finds a value, it
    finds the same one in every input that has the same bytes where it is read, and it goes over as
    many of them. -/
theorem runs_inside_and_local (input : Array UInt8) (size : input.size < UInt64.size)
    (readings : List Reading) :
    ∃ results last left, (start input).readEach readings = some (results, last) ∧
      results.length = readings.length ∧ last.input = input ∧
      last.remainingLength? = some left ∧ last.position + left = input.size ∧
      last.remaining? = some (input.toList.drop last.position) ∧
      ∀ reading, ∃ result next,
        (start input).readEach (readings ++ [reading]) = some (results ++ [result], next) ∧
        next.input = input ∧ last.position ≤ next.position ∧ next.position ≤ input.size ∧
        ∀ value, result = .ok value → ∀ other : IndexedCursor, other.InBounds →
          other.input.extract other.position
              (other.position + (next.position - last.position)) =
            input.extract last.position next.position →
          other.read reading = .done value (other.moved (next.position - last.position)) := by
  obtain ⟨results, last, read, same_length, reached⟩ :=
    readEach_inside (start_inBounds size) readings
  have bounds := reached.inBounds (start_inBounds size)
  have same_input : last.input = input := reached.input
  have inside := bounds.position
  refine ⟨results, last, last.input.size - last.position, read, same_length, same_input,
    if_pos inside, ?_, ?_, ?_⟩
  · rw [Nat.add_sub_cancel' inside, same_input]
  · have rest : (last.input.extract last.position last.input.size).toList = last.unread := by
      have whole := extract_toList last (last.input.size - last.position)
      rwa [Nat.add_sub_cancel' inside, ← unread_length, List.take_length] at whole
    rw [remaining?, part?, if_pos ⟨inside, Nat.le_refl _⟩, rest, unread, same_input]
  · intro reading
    obtain ⟨result, next, onward, reached_on, found⟩ := read_step bounds reading
    refine ⟨result, next, readEach_append (start_inBounds size) read (onward []),
      reached_on.input.trans same_input, reached_on.forward, same_input ▸ reached_on.inside, ?_⟩
    intro value success other other_bounds same
    rw [← same_input] at same
    exact read_local bounds (found value success) other_bounds same

def flawedInput : Array UInt8 := #[2, 3, 97, 98, 99, 7]

/-- The text is found behind two reads that fail, and it is found again on another input, where it
    stands in front of the end. -/
theorem flawed_run_inside_and_local :
    flawedInput.size < UInt64.size ∧
      (start flawedInput).readEach [.bool "flag", .bytes 18446744073709551615 "tail"] =
        some ([.error (.invalidBool 2), .error (.endOfInput "tail")], ⟨flawedInput, 1⟩) ∧
      (start flawedInput).readEach
          [.bool "flag", .bytes 18446744073709551615 "tail", .string 3 "name"] =
        some ([.error (.invalidBool 2), .error (.endOfInput "tail"), .ok (.string "abc")],
          ⟨flawedInput, 5⟩) ∧
      read ⟨#[0, 0, 3, 97, 98, 99], 2⟩ (.string 3 "name") =
        .done (.string "abc") ⟨#[0, 0, 3, 97, 98, 99], 6⟩ := by
  have size : flawedInput.size < UInt64.size := by decide
  have failures : (start flawedInput).readEach [.bool "flag", .bytes 18446744073709551615 "tail"] =
      some ([.error (.invalidBool 2), .error (.endOfInput "tail")], ⟨flawedInput, 1⟩) := by
    decide +kernel
  have success : (start flawedInput).readEach
      [.bool "flag", .bytes 18446744073709551615 "tail", .string 3 "name"] =
        some ([.error (.invalidBool 2), .error (.endOfInput "tail"), .ok (.string "abc")],
          ⟨flawedInput, 5⟩) := by decide +kernel
  obtain ⟨results, last, left, read, -, -, -, -, -, onward⟩ := runs_inside_and_local flawedInput size
    [.bool "flag", .bytes 18446744073709551615 "tail"]
  obtain ⟨result, next, read_on, -, -, -, same⟩ := onward (.string 3 "name")
  cases failures.symm.trans read
  cases success.symm.trans read_on
  exact ⟨size, failures, success,
    same _ rfl ⟨#[0, 0, 3, 97, 98, 99], 2⟩ ⟨by decide, by decide⟩ (by decide)⟩

end IndexedCursor

/-- After any number of reads, the values are those that were written first, the position is the
    length of the output at that time, and what was written later is still to come. The same bytes
    are written in words, and the same values are found in them by position. -/
theorem streams_read_back {readings : List Reading} {values : List Primitive}
    (asked : Forall₂ Reading.AsksFor readings values)
    (in_words : ∀ value ∈ values, value.InWords) (more : Bytes) (count : Nat) :
    (Cursor.start ((Output.primitives #[] values).toList ++ more)).readAll
        (readings.take count) =
      .done (values.take count)
        ⟨(Output.primitives #[] (values.take count)).size,
          ((Output.primitives #[] values).toList ++ more).drop
            (Output.primitives #[] (values.take count)).size⟩ ∧
    values.foldlM Output.primitive? #[] = some (Output.primitives #[] values) ∧
    (values.take count).foldlM Output.primitive? #[] =
      some (Output.primitives #[] (values.take count)) ∧
    ∀ input : Array UInt8, input.toList = (Output.primitives #[] values).toList ++ more →
      input.size < UInt64.size →
        (IndexedCursor.start input).readEach (readings.take count) =
          some ((values.take count).map .ok,
            ⟨input, (Output.primitives #[] (values.take count)).size⟩) := by
  have read := written_reads_back asked in_words more count
  refine ⟨read, Output.primitives?_eq #[] in_words, Output.primitives?_eq #[] fun value member =>
    in_words value (List.mem_of_mem_take member), fun input bytes size => ?_⟩
  have bounds := IndexedCursor.start_inBounds size
  have begun : (IndexedCursor.start input).cursor = Cursor.start input.toList := rfl
  rw [← bytes, ← begun] at read
  exact IndexedCursor.readEach_of_readAll bounds read

def mixedValues : List Primitive :=
  [.varint 18446744073709551615, .bytes [], .signed (-9223372036854775808), .string "né",
    .bool false, .varint 300, .byte 128, .bytes [255, 0]]

def mixedReadings : List Reading :=
  [.varint "number", .bytes 0 "data", .signed "number", .string 3 "name", .bool "flag",
    .length 300 "count", .byte "mark", .bytes 2 "data"]

theorem mixed_stream_reads_back :
    Forall₂ Reading.AsksFor mixedReadings mixedValues ∧
      (∀ value ∈ mixedValues, value.InWords) ∧
      (Cursor.start ((Output.primitives #[] mixedValues).toList ++ [128])).readAll
          (mixedReadings.take 4) =
        .done (mixedValues.take 4) ⟨24, [0, 172, 2, 128, 255, 0, 128]⟩ ∧
      ∃ out, mixedValues.foldlM Output.primitive? #[] = some out ∧
        (IndexedCursor.start (out ++ #[128])).readEach (mixedReadings.take 4) =
          some ((mixedValues.take 4).map .ok, ⟨out ++ #[128], 24⟩) := by
  have asked : Forall₂ Reading.AsksFor mixedReadings mixedValues := by
    refine .cons (.varint _ _) (.cons (.bytes _ []) (.cons (.signed _ _) ?_))
    refine .cons (.string _ (by decide)) (.cons (.bool _ _) ?_)
    exact .cons (.length _ (by decide)) (.cons (.byte _ _) (.cons (.bytes _ [255, 0]) .nil))
  have in_words : ∀ value ∈ mixedValues, value.InWords := by decide
  have size : (Output.primitives #[] (mixedValues.take 4)).size = 24 := by decide +kernel
  have behind : ((Output.primitives #[] mixedValues).toList ++ [128]).drop 24 =
      [0, 172, 2, 128, 255, 0, 128] := by decide +kernel
  obtain ⟨read, written, -, found⟩ := streams_read_back asked in_words [128] 4
  rw [size] at read found
  rw [behind] at read
  exact ⟨asked, in_words, read, _, written, found _ (Array.toList_append ..) (by decide +kernel)⟩

end EntityCatalog
