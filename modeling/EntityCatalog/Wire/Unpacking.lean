import EntityCatalog.Wire.Compression

/- Unpacking frames for a reader that knows how many bytes to expect. What lies behind the bytes
   that the reader asks for is not looked at; a fault in the input is found once all that comes
   before it has room in the requests made so far. -/
namespace EntityCatalog

/-! ### Requests -/

namespace Frame

/-- A stretch of the content that the reader asks for. No request is for more than `longest` bytes,
    which are never fewer than 32. -/
structure Request where
  start : Nat
  stop : Nat
  longest : Nat
  deriving DecidableEq

/-- The request from a position on. The reader asks for what is missing; if that is less than 32
    bytes, it asks for the byte after them as well. -/
def Request.ofStart (size start longest : Nat) : Request :=
  let stop := if start + 32 ≤ size then min size (start + longest) else size + 1
  ⟨start, stop, longest⟩

def Request.first (size : Nat) : Request := .ofStart size 0 8192

/-- The request after one that was answered up to a position. The reader asks for twice as much once
    its longest request was filled. -/
def Request.next (size : Nat) (request : Request) (reached : Nat) : Request :=
  if reached = request.stop ∧ request.start + request.longest ≤ request.stop then
    .ofStart size reached (2 * request.longest)
  else .ofStart size reached request.longest

def Request.past (size : Nat) (request : Request) (reached : Nat) : Request :=
  if request.start < request.stop ∧ request.stop < reached ∧ request.stop ≤ size then
    (request.next size request.stop).past size reached
  else request.next size (min reached request.stop)
termination_by size - request.start
decreasing_by
  have : (request.next size request.stop).start = request.stop := by
    unfold Request.next
    split <;> rfl
  omega

end Frame

/-! ### Progress -/

namespace Frame

def portionLength : Nat := maxBlockLength + 3

structure Memory where
  data : Nat
  content : Nat
  deriving DecidableEq

def Memory.suited (memory : Memory) (header : Header) : Memory :=
  let data := max header.blockLimit 4
  let ring := max header.window 1024 + 2 * header.blockLimit + 64
  let content := min ring (header.contentLength.getD ring)
  if memory.data < data ∨ memory.content < content then ⟨data, content⟩ else memory

/-- A frame whose content size fits into the memory is unpacked there from end to end, and any other
    one in a ring. -/
def Memory.holds (memory : Memory) (header : Header) (length : Nat) : Bool :=
  header.contentLength.all fun expected => memory.content < expected ∨ length ≤ memory.content

/-- How far unpacking has come: the content found, its runs last first, and how much of the input is
    at hand. -/
structure Progress where
  size : Nat
  request : Request
  length : Nat
  found : List Run
  atHand : Nat
  memory : Memory
  deriving DecidableEq

namespace Progress

def start (size : Nat) : Progress := ⟨size, .first size, 0, [], 0, ⟨0, 0⟩⟩

def content (progress : Progress) : Stream := ⟨progress.found.reverse, true⟩

/-- A fault leaves the reader with the answers to its earlier requests. -/
def broken (progress : Progress) : Stream :=
  ⟨[.literal (progress.content.take progress.request.start)], false⟩

def isServed (progress : Progress) : Bool := progress.size < progress.request.start

def answer (progress : Progress) : Progress :=
  if progress.request.start < progress.length then
    { progress with request := progress.request.next progress.size progress.length }
  else progress

def starved (progress : Progress) : Stream :=
  if progress.answer.isServed then progress.content else progress.broken

def more (progress : Progress) : Except Stream Progress :=
  if progress.answer.isServed then .error progress.content
  else .ok { progress.answer with atHand := progress.atHand + portionLength }

def await (progress : Progress) : Except Stream Progress :=
  if progress.atHand = 0 then progress.more else .ok progress

def skip (count : Nat) (progress : Progress) : Progress :=
  { progress with atHand := progress.atHand - count }

def use (count : Nat) (progress : Progress) : Except Stream Progress :=
  if count ≤ progress.atHand then .ok (progress.skip count)
  else progress.more.map (skip count)

def leap (count : Nat) (progress : Progress) : Progress :=
  if count ≤ progress.atHand then progress.skip count
  else
    { progress with
      atHand := portionLength - 1 - (count - progress.atHand - 1) % portionLength }

/-- Adds to the content. What a request has no room for is left to those after it. -/
def add (run : Run) (count : Nat) (progress : Progress) : Except Stream Progress :=
  let length := progress.length + count
  let request :=
    if length ≤ progress.request.stop then progress.request
    else progress.request.past progress.size length
  let next := { progress with found := run :: progress.found, length, request }
  if next.isServed then .error next.content else .ok next

end Progress

end Frame

/-! ### Unpacking -/

namespace Frame

def maxWindow : Nat := 128 * 1024 * 1024 + 1

def Header.admits (header : Header) (length : Nat) : Bool := header.contentLength.all (· = length)

/-- Unpacks the rest of a stored block in the pieces that come to hand; `length` is the number of
    bytes of the frame so far. -/
def readStored (header : Header) (isLast : Bool) (left length : Nat) (progress : Progress)
    (input : Bytes) : Except Stream (Nat × Progress × Bytes) :=
  match progress.await with
  | .error stream => .error stream
  | .ok progress =>
      let piece := input.take (min left progress.atHand)
      let count := piece.length
      let total := length + count
      if _ : count = 0 then .error progress.starved
      else if progress.memory.holds header total = false then .error progress.broken
      else if isLast ∧ left = count ∧ header.admits total = false then .error progress.broken
      else
        match (progress.skip count).add (.literal piece) count with
        | .error stream => .error stream
        | .ok next =>
            if left ≤ count then .ok (total, next, input.drop count)
            else readStored header isLast (left - count) total next (input.drop count)
termination_by left
decreasing_by
  exact Nat.sub_lt (Nat.lt_of_le_of_lt (Nat.zero_le _) (Nat.lt_of_not_le ‹¬left ≤ count›))
    (Nat.pos_of_ne_zero ‹¬count = 0›)

theorem readStored_rest_length {header : Header} {isLast : Bool} {left length total : Nat}
    {progress next : Progress} {input rest : Bytes}
    (read : readStored header isLast left length progress input = .ok (total, next, rest)) :
    rest.length ≤ input.length := by
  fun_induction readStored header isLast left length progress input with
  | case1 => cases read
  | case2 => cases read
  | case3 => cases read
  | case4 => cases read
  | case5 => cases read
  | case6 =>
    simp only [Except.ok.injEq, Prod.mk.injEq] at read
    obtain ⟨_, _, rfl⟩ := read
    simp only [List.length_drop]
    omega
  | case7 =>
    rename_i ih
    have := ih read
    simp only [List.length_drop] at this
    omega

def readBlock (header : Header) (block : Block) (length : Nat) (progress : Progress)
    (input : Bytes) : Except Stream (Nat × Progress × Bytes) :=
  if block.kind = .reserved ∨ header.blockLimit < block.extent then .error progress.broken
  else if block.extent = 0 then .ok (length, progress, input)
  else
    match block.kind, input with
    | .stored, _ => readStored header block.isLast block.size length progress input
    | .repeated, byte :: rest =>
        let total := length + block.size
        match progress.use 1 with
        | .error stream => .error stream
        | .ok next =>
            if header.blockLimit < block.size ∨ next.memory.holds header total = false ∨
                block.isLast ∧ header.admits total = false then .error next.broken
            else
              match next.add (.repeated byte block.size) block.size with
              | .error stream => .error stream
              | .ok next => .ok (total, next, rest)
    | .repeated, [] => .error progress.starved
    | _, _ => .error progress.broken

theorem readBlock_rest_length {header : Header} {block : Block} {length total : Nat}
    {progress next : Progress} {input rest : Bytes}
    (read : readBlock header block length progress input = .ok (total, next, rest)) :
    rest.length ≤ input.length := by
  simp only [readBlock] at read
  repeat' split at read
  all_goals try contradiction
  · cases read
    exact Nat.le_refl _
  · exact readStored_rest_length read
  · cases read
    simp only [List.length_cons]
    omega

/-- Unpacks blocks down to the last one of the frame. An empty last block leaves the size of the
    content unchecked. -/
def readContent (header : Header) (length : Nat) (progress : Progress) (input : Bytes) :
    Except Stream (Progress × Bytes) :=
  match input with
  | b0 :: b1 :: b2 :: rest =>
      let block := Block.ofBytes b0 b1 b2
      match progress.use 3 with
      | .error stream => .error stream
      | .ok progress =>
          match _ : readBlock header block length progress rest with
          | .error stream => .error stream
          | .ok (total, next, after) =>
              if block.isLast then .ok (next, after) else readContent header total next after
  | _ => .error progress.starved
termination_by input.length
decreasing_by
  have := readBlock_rest_length ‹_›
  simp only [List.length_cons]
  omega

theorem readContent_rest_length {header : Header} {length : Nat} {progress next : Progress}
    {input rest : Bytes} (read : readContent header length progress input = .ok (next, rest)) :
    rest.length ≤ input.length := by
  fun_induction readContent header length progress input with
  | case1 => cases read
  | case2 => cases read
  | case3 =>
    cases read
    have := readBlock_rest_length ‹_›
    simp only [List.length_cons]
    omega
  | case4 =>
    rename_i ih
    have := ih read
    have := readBlock_rest_length ‹_›
    simp only [List.length_cons]
    omega
  | case5 => cases read

/-- Unpacks a frame at once, provided that its content fits into the request and all of it is at
    hand. -/
def readAtOnce? (header : Header) (progress : Progress) (input : Bytes) :
    Option (Except Stream (Progress × Bytes)) :=
  match header.contentLength with
  | none => none
  | some expected =>
      if progress.request.stop < progress.length + expected then none
      else
        match readBlocks? (input.drop header.extent) with
        | none => none
        | some blocks =>
            let extent := header.extent + blocks.extent
            if progress.atHand < extent then none
            else if blocks.length ≠ expected then some (.error progress.broken)
            else
              match blocks.runs with
              | none => some (.error progress.broken)
              | some runs =>
                  let found := runs.reverse ++ progress.found
                  let next :=
                    { progress.skip extent with length := progress.length + expected, found }
                  some (.ok (next, input.drop extent))

def readAfter (header : Header) (progress : Progress) (input : Bytes) :
    Except Stream (Progress × Bytes) :=
  match readAtOnce? header progress input with
  | some result => result
  | none =>
      if maxWindow < header.window then .error progress.broken
      else
        let memory := progress.memory.suited header
        readContent header 0 { progress.leap header.extent with memory }
          (input.drop header.extent)

def passOver (count : Nat) (progress : Progress) (input : Bytes) :
    Except Stream (Progress × Bytes) :=
  let extent := 8 + count
  if (input.take extent).length < extent then .error progress.broken
  else
    let memory := progress.memory.suited ⟨some count, 0, 8⟩
    .ok ({ progress.leap extent with memory }, input.drop extent)

def readFrame (progress : Progress) (input : Bytes) : Except Stream (Progress × Bytes) :=
  let atHand := if progress.atHand = 0 then portionLength else progress.atHand
  let progress := { progress with atHand }
  match readHeader? input, readSkippable? input with
  | some header, _ => readAfter header progress input
  | none, some count => passOver count progress input
  | none, none => .error progress.broken

theorem readHeader?_extent {input : Bytes} {header : Header}
    (read : readHeader? input = some header) : 0 < header.extent ∧ 0 < input.length := by
  constructor
  · simp only [readHeader?] at read
    repeat' split at read
    all_goals try contradiction
    all_goals cases read; exact Nat.add_pos_left (by decide) _
  · cases input with
    | nil => simp [readHeader?, magic] at read
    | cons byte rest => simp

theorem readAtOnce?_rest_length {header : Header} {progress next : Progress} {input rest : Bytes}
    (read : readAtOnce? header progress input = some (.ok (next, rest))) :
    rest.length ≤ input.length - header.extent := by
  simp only [readAtOnce?] at read
  repeat' split at read
  all_goals try contradiction
  all_goals cases read
  simp only [List.length_drop]
  omega

theorem readAfter_rest_length {header : Header} {progress next : Progress} {input rest : Bytes}
    (read : readAfter header progress input = .ok (next, rest)) :
    rest.length ≤ input.length - header.extent := by
  simp only [readAfter] at read
  split at read
  · subst read
    exact readAtOnce?_rest_length ‹_›
  · split at read
    · contradiction
    · have := readContent_rest_length read
      simpa only [List.length_drop] using this

theorem passOver_rest_length {count : Nat} {progress next : Progress} {input rest : Bytes}
    (read : passOver count progress input = .ok (next, rest)) : rest.length < input.length := by
  simp only [passOver, List.length_take] at read
  split at read
  · contradiction
  · cases read
    simp only [List.length_drop]
    omega

theorem readFrame_rest_length {progress next : Progress} {input rest : Bytes}
    (read : readFrame progress input = .ok (next, rest)) : rest.length < input.length := by
  simp only [readFrame] at read
  split at read
  · have := readAfter_rest_length read
    have := readHeader?_extent ‹_›
    omega
  · exact passOver_rest_length read
  · contradiction

/-- Unpacks frames up to the end of the input. A frame that ends answers the request. -/
def readFrames (progress : Progress) (input : Bytes) : Stream :=
  match _ : readFrame progress input with
  | .error stream => stream
  | .ok (next, rest) =>
      if next.answer.isServed ∨ rest = [] then next.content else readFrames next.answer rest
termination_by input.length
decreasing_by exact readFrame_rest_length ‹_›

end Frame

def storedFrames : Compression where
  pack _ bytes := some (Frame.writeBlocks Frame.header.toArray bytes).toList
  unpack size payload := Frame.readFrames (.start size) payload

end EntityCatalog
