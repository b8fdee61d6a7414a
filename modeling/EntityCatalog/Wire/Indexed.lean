import EntityCatalog.Wire.Primitives

/- Primitive values in words of 64 bits. A varint is put together in a buffer of ten bytes before it is
   appended; a group that finds no room there gives nothing. Values are read by position: the input
   stays as it is and the cursor moves over it; every position, part of the input and shift is checked
   for its bounds, and a step that leaves them gives neither a value nor a fault. -/
namespace EntityCatalog

/-! ### Writing words -/

/-- The bits one place up, all of them turned over for a negative number. -/
def zigzagWord (n : Int64) : UInt64 := ((n <<< 1) ^^^ (n >>> 63)).toUInt64

def unzigzagWord (k : UInt64) : Int64 := (k >>> 1).toInt64 ^^^ -(k &&& 1).toInt64

/-- The groups of a number in a buffer that has room for so many bytes. -/
def groups? : Nat → UInt64 → Option Bytes
  | 0, _ => none
  | room + 1, n =>
      let group := (n &&& 127).toUInt8
      let rest := n >>> 7
      if rest = 0 then some [group] else (groups? room rest).map ((group ||| 128) :: ·)

namespace Output

def varint? (out : Output) (n : UInt64) : Option Output :=
  (groups? maxVarintLength n).map out.bytes

def signed? (out : Output) (n : Int64) : Option Output := out.varint? (zigzagWord n)

def string? (out : Output) (text : String) : Option Output :=
  (out.varint? (UInt64.ofNat text.utf8ByteSize)).map (Output.bytes · (utf8 text))

def primitive? (out : Output) : Primitive → Option Output
  | .byte value => some (out.push value)
  | .bytes data => some (out.bytes data)
  | .bool flag => some (out.bool flag)
  | .varint n => out.varint? (UInt64.ofNat n)
  | .signed n => out.signed? (Int64.ofInt n)
  | .string text => out.string? text

end Output

/-! ### Reading by position -/

structure IndexedCursor where
  input : Array UInt8
  position : Nat
  deriving DecidableEq

inductive Access (α : Type) where
  | done (value : α) (next : IndexedCursor)
  | failed (fault : ReadFault) (stop : IndexedCursor)
  | outOfBounds
  deriving DecidableEq

namespace Access
variable {α β : Type}

@[inline] def andThen (access : Access α) (onward : α → IndexedCursor → Access β) : Access β :=
  match access with
  | .done value next => onward value next
  | .failed fault stop => .failed fault stop
  | .outOfBounds => .outOfBounds

@[inline] def map (f : α → β) (access : Access α) : Access β :=
  match access with
  | .done value next => .done (f value) next
  | .failed fault stop => .failed fault stop
  | .outOfBounds => .outOfBounds

@[inline] def within (found : Option α) (onward : α → Access β) : Access β :=
  match found with
  | some value => onward value
  | none => .outOfBounds

@[simp] theorem within_some (value : α) (onward : α → Access β) :
    within (some value) onward = onward value := rfl

end Access

def size? (n : Nat) : Option Nat := if n < UInt64.size then some n else none

def part? (input : Array UInt8) (start stop : Nat) : Option Bytes :=
  if start ≤ stop ∧ stop ≤ input.size then some (input.extract start stop).toList else none

/-- No word can be shifted by as many places as it has. -/
def shifted? (n : UInt64) (places : Nat) : Option UInt64 :=
  if places < 64 then some (n <<< UInt64.ofNat places) else none

namespace IndexedCursor
open Access

def start (input : Array UInt8) : IndexedCursor := ⟨input, 0⟩

def isAtEnd (cursor : IndexedCursor) : Bool := cursor.input.size ≤ cursor.position

def remaining? (cursor : IndexedCursor) : Option Bytes :=
  part? cursor.input cursor.position cursor.input.size

def remainingLength? (cursor : IndexedCursor) : Option Nat :=
  if cursor.position ≤ cursor.input.size then some (cursor.input.size - cursor.position) else none

def readByte (reading : String) (cursor : IndexedCursor) : Access UInt8 :=
  match cursor.input[cursor.position]? with
  | none => .failed (.endOfInput reading) cursor
  | some byte =>
      within (size? (cursor.position + 1)) fun position => .done byte { cursor with position }

/-- The end of the bytes is looked at before any of them; it need not be a word. -/
def readBytes (count : Nat) (reading : String) (cursor : IndexedCursor) : Access Bytes :=
  match (size? (cursor.position + count)).filter fun stop => stop ≤ cursor.input.size with
  | none => .failed (.endOfInput reading) cursor
  | some stop =>
      within (part? cursor.input cursor.position stop) fun bytes =>
        .done bytes { cursor with position := stop }

def readBool (reading : String) (cursor : IndexedCursor) : Access Bool :=
  (cursor.readByte reading).andThen fun byte next =>
    if byte = 0 then .done false next
    else if byte = 1 then .done true next
    else .failed (.invalidBool byte) next

/-- Reads at most `left` further bytes of a varint. The bits before theirs are in `result`, and theirs
    are shifted by `shift`. -/
def readGroups (reading : String) : Nat → UInt64 → Nat → IndexedCursor → Access UInt64
  | 0, _, _, cursor => .failed .varintTooLong cursor
  | left + 1, result, shift, cursor =>
      (cursor.readByte reading).andThen fun byte next =>
        let group := (byte &&& 127).toUInt64
        if shift = 63 ∧ 1 < group then .failed .varintOverflow next
        else
          within (shifted? group shift) fun bits =>
            if byte &&& 128 = 0 then .done (result ||| bits) next
            else readGroups reading left (result ||| bits) (shift + 7) next

def readVarint (reading : String) (cursor : IndexedCursor) : Access UInt64 :=
  cursor.readGroups reading maxVarintLength 0 0

def readSigned (reading : String) (cursor : IndexedCursor) : Access Int64 :=
  (cursor.readVarint reading).map unzigzagWord

def readLength (limit : Nat) (part : String) (cursor : IndexedCursor) : Access Nat :=
  ((cursor.readVarint part).map UInt64.toNat).andThen fun length next =>
    if limit < length then .failed (.tooLong part length limit) next else .done length next

def readString (limit : Nat) (part : String) (cursor : IndexedCursor) : Access String :=
  (cursor.readLength limit part).andThen fun length next =>
    (next.readBytes length part).andThen fun bytes after =>
      match ofUtf8? bytes with
      | some text => .done text after
      | none => .failed (.invalidUtf8 part) after

def read (cursor : IndexedCursor) : Reading → Access Primitive
  | .byte reading => (cursor.readByte reading).map .byte
  | .bytes count reading => (cursor.readBytes count reading).map .bytes
  | .bool reading => (cursor.readBool reading).map .bool
  | .varint reading => (cursor.readVarint reading).map fun n => .varint n.toNat
  | .signed reading => (cursor.readSigned reading).map fun n => .signed n.toInt
  | .length limit part => (cursor.readLength limit part).map .varint
  | .string limit part => (cursor.readString limit part).map .string

/-- Reads in turn, each from where the one before has stopped, whether it has failed or not. -/
def readEach (cursor : IndexedCursor) :
    List Reading → Option (List (Except ReadFault Primitive) × IndexedCursor)
  | [] => some ([], cursor)
  | reading :: rest =>
      match cursor.read reading with
      | .done value next =>
          (next.readEach rest).map fun (results, last) => (.ok value :: results, last)
      | .failed fault stop =>
          (stop.readEach rest).map fun (results, last) => (.error fault :: results, last)
      | .outOfBounds => none

end IndexedCursor

end EntityCatalog
