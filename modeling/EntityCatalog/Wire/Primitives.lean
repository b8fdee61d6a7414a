import EntityCatalog.Text

/- Primitive values as bytes: base-128 varints, signed numbers folded onto the naturals, texts with
   their length in front. They are written one after the other to one output, and read one after the
   other from one cursor; nothing in the bytes tells where a value ends or of which kind it is, so
   whoever reads has to ask for what was written. A failed read leaves the cursor where the fault was
   found, which may be past some bytes. -/
namespace EntityCatalog

/-! ### Limits -/

/-- Lengths are in bytes, except for the number of items of an array; the depth counts arrays and
    documents inside the outermost document. -/
structure Limits where
  documentSize : Nat
  stringLength : Nat
  arrayLength : Nat
  depth : Nat
  deriving DecidableEq

namespace Limits

def caps : Limits := ⟨16 * 1024 * 1024, 1024 * 1024, 1000000, 64⟩

instance : Inhabited Limits := ⟨caps⟩

def capped (limits : Limits) : Limits :=
  ⟨min limits.documentSize caps.documentSize, min limits.stringLength caps.stringLength,
    min limits.arrayLength caps.arrayLength, min limits.depth caps.depth⟩

instance : LE Limits where
  le strict loose := strict.documentSize ≤ loose.documentSize ∧
    strict.stringLength ≤ loose.stringLength ∧ strict.arrayLength ≤ loose.arrayLength ∧
    strict.depth ≤ loose.depth

end Limits

def maxFields : Nat := 4096

def maxVarintLength : Nat := 10

def oldestFormat : UInt8 := 1
def currentFormat : UInt8 := 1

def libraryVersion : String := "0.1.0"

/-- The first bytes of a plain document, the characters "CDOC". -/
def plainMagic : List UInt8 := [67, 68, 79, 67]

def packedMagic : List UInt8 := [67, 68, 79, 67, 90]

/-! ### Faults -/

inductive ReadFault where
  | badMagic (found : List UInt8)
  | unsupportedFormat (version : UInt8)
  | endOfInput (reading : String)
  | varintTooLong
  | varintOverflow
  | tooLong (part : String) (length limit : Nat)
  | invalidUtf8 (part : String)
  | invalidBool (byte : UInt8)
  | invalidTag (byte : UInt8)
  | int32OutOfRange (number : Int)
  | nestedTooDeep (limit : Nat)
  | trailingBytes (count : Nat)
  | decompressionFailed
  | sizeMismatch (declared actual : Nat)
  deriving DecidableEq

inductive WriteFault where
  | tooLong (part : String) (length limit : Nat)
  | nestedTooDeep (limit : Nat)
  | compressionFailed
  deriving DecidableEq

def tooLongMessage (part : String) (length limit : Nat) : String :=
  part ++ " length " ++ toString length ++ " exceeds maximum " ++ toString limit

def nestedTooDeepMessage (limit : Nat) : String :=
  "document nesting exceeds maximum depth " ++ toString limit

def hexByte (byte : UInt8) : String :=
  if byte < 16 then "0" ++ hexText byte.toNat else hexText byte.toNat

def ReadFault.message : ReadFault → String
  | .badMagic found =>
      "invalid magic bytes: expected CDOC or CDOCZ, found [" ++
        ", ".intercalate (found.map fun byte => toString byte.toNat) ++ "]"
  | .unsupportedFormat version =>
      "unsupported document format version: " ++ toString version.toNat
  | .endOfInput reading => "unexpected end of input while reading " ++ reading
  | .varintTooLong => "varint exceeds maximum length (10 bytes)"
  | .varintOverflow => "varint overflow (value exceeds u64)"
  | .tooLong part length limit => tooLongMessage part length limit
  | .invalidUtf8 part => "invalid UTF-8 in " ++ part
  | .invalidBool byte =>
      "invalid bool value: " ++ toString byte.toNat ++ " (expected 0x00 or 0x01)"
  | .invalidTag byte => "invalid value tag: 0x" ++ hexByte byte
  | .int32OutOfRange number => "int32 value " ++ toString number ++ " out of range"
  | .nestedTooDeep limit => nestedTooDeepMessage limit
  | .trailingBytes count => toString count ++ " trailing bytes after document"
  | .decompressionFailed => "zstd decompression failed"
  | .sizeMismatch declared actual =>
      "decompressed size " ++ toString actual ++ " doesn't match declared " ++ toString declared

def WriteFault.message : WriteFault → String
  | .tooLong part length limit => tooLongMessage part length limit
  | .nestedTooDeep limit => nestedTooDeepMessage limit
  | .compressionFailed => "zstd compression failed"

/-! ### Output -/

abbrev Output := Array UInt8

/-- Seven bits a byte, the lowest first; all bytes but the last have 128 added. -/
def varint (n : Nat) : Bytes :=
  if n < 128 then [UInt8.ofNat n] else UInt8.ofNat (n % 128 + 128) :: varint (n / 128)
termination_by n

/-- Numbers near zero stay small: 0, -1, 1, -2 become 0, 1, 2, 3. -/
def zigzag (n : Int) : Nat := if n < 0 then (-2 * n - 1).toNat else (2 * n).toNat

def unzigzag (k : Nat) : Int := if k % 2 = 0 then k / 2 else -(k / 2) - 1

def boolByte (flag : Bool) : UInt8 := if flag then 1 else 0

namespace Output

def bytes (out : Output) (data : Bytes) : Output := out ++ data

def bool (out : Output) (flag : Bool) : Output := out.push (boolByte flag)

def varint (out : Output) (n : Nat) : Output := out ++ EntityCatalog.varint n

def signed (out : Output) (n : Int) : Output := out.varint (zigzag n)

def string (out : Output) (text : String) : Output := out.varint text.utf8ByteSize ++ utf8 text

end Output

/-! ### Cursors -/

structure Cursor where
  position : Nat
  rest : Bytes
  deriving DecidableEq

def Cursor.start (input : Bytes) : Cursor := ⟨0, input⟩

inductive Reply (α : Type) where
  | done (value : α) (next : Cursor)
  | failed (fault : ReadFault) (stop : Cursor)
  deriving DecidableEq

variable {α β : Type}

@[inline] def Reply.andThen (reply : Reply α) (onward : α → Cursor → Reply β) : Reply β :=
  match reply with
  | .done value next => onward value next
  | .failed fault stop => .failed fault stop

@[inline] def Reply.map (f : α → β) (reply : Reply α) : Reply β :=
  match reply with
  | .done value next => .done (f value) next
  | .failed fault stop => .failed fault stop

namespace Reply

@[simp] theorem andThen_done (value : α) (next : Cursor) (onward : α → Cursor → Reply β) :
    (done value next).andThen onward = onward value next := rfl

@[simp] theorem andThen_failed (fault : ReadFault) (stop : Cursor)
    (onward : α → Cursor → Reply β) : (failed fault stop).andThen onward = failed fault stop := rfl

@[simp] theorem map_done (f : α → β) (value : α) (next : Cursor) :
    (done value next).map f = done (f value) next := rfl

@[simp] theorem map_failed (f : α → β) (fault : ReadFault) (stop : Cursor) :
    (failed fault stop).map f = failed fault stop := rfl

theorem andThen_eq_done {reply : Reply α} {onward : α → Cursor → Reply β} {result : β}
    {last : Cursor} : reply.andThen onward = done result last ↔
      ∃ value next, reply = done value next ∧ onward value next = done result last := by
  cases reply <;> simp [and_assoc]

theorem map_eq_done {reply : Reply α} {f : α → β} {result : β} {next : Cursor} :
    reply.map f = done result next ↔ ∃ value, reply = done value next ∧ f value = result := by
  constructor
  · intro mapped
    cases reply <;> cases mapped
    exact ⟨_, rfl, rfl⟩
  · rintro ⟨value, rfl, rfl⟩
    rfl

end Reply

namespace Cursor

def readByte (reading : String) (cursor : Cursor) : Reply UInt8 :=
  match cursor.rest with
  | [] => .failed (.endOfInput reading) cursor
  | byte :: rest => .done byte ⟨cursor.position + 1, rest⟩

@[simp] theorem readByte_nil (reading : String) (position : Nat) :
    readByte reading ⟨position, []⟩ = .failed (.endOfInput reading) ⟨position, []⟩ := rfl

@[simp] theorem readByte_cons (reading : String) (position : Nat) (byte : UInt8) (rest : Bytes) :
    readByte reading ⟨position, byte :: rest⟩ = .done byte ⟨position + 1, rest⟩ := rfl

/-- The first bytes and those after them, if there are enough. The bytes already taken are kept
    last first. -/
def splitExactly : Nat → Bytes → Bytes → Option (Bytes × Bytes)
  | 0, taken, rest => some (taken.reverse, rest)
  | _ + 1, _, [] => none
  | count + 1, taken, byte :: rest => splitExactly count (byte :: taken) rest

/-- A read that runs out of input does not move. -/
def readBytes (count : Nat) (reading : String) (cursor : Cursor) : Reply Bytes :=
  match splitExactly count [] cursor.rest with
  | none => .failed (.endOfInput reading) cursor
  | some (bytes, rest) => .done bytes ⟨cursor.position + count, rest⟩

def readBool (reading : String) (cursor : Cursor) : Reply Bool :=
  (cursor.readByte reading).andThen fun byte next =>
    if byte = 0 then .done false next
    else if byte = 1 then .done true next
    else .failed (.invalidBool byte) next

/-- Reads at most `left` further bytes of a varint; `sum` is the value of those before, and the
    next seven bits count `weight` times. -/
def readGroups (reading : String) : Nat → Nat → Nat → Cursor → Reply Nat
  | 0, _, _, cursor => .failed .varintTooLong cursor
  | left + 1, weight, sum, cursor =>
      (cursor.readByte reading).andThen fun byte next =>
        let total := sum + byte.toNat % 128 * weight
        if UInt64.size ≤ total then .failed .varintOverflow next
        else if byte.toNat < 128 then .done total next
        else readGroups reading left (weight * 128) total next

theorem readGroups_cons (reading : String) (left weight sum position : Nat) (byte : UInt8)
    (rest : Bytes) :
    readGroups reading (left + 1) weight sum ⟨position, byte :: rest⟩ =
      if UInt64.size ≤ sum + byte.toNat % 128 * weight then
        .failed .varintOverflow ⟨position + 1, rest⟩
      else if byte.toNat < 128 then .done (sum + byte.toNat % 128 * weight) ⟨position + 1, rest⟩
      else readGroups reading left (weight * 128) (sum + byte.toNat % 128 * weight)
        ⟨position + 1, rest⟩ := rfl

def readVarint (reading : String) (cursor : Cursor) : Reply Nat :=
  readGroups reading maxVarintLength 1 0 cursor

def readSigned (reading : String) (cursor : Cursor) : Reply Int :=
  (cursor.readVarint reading).map unzigzag

def readLength (limit : Nat) (part : String) (cursor : Cursor) : Reply Nat :=
  (cursor.readVarint part).andThen fun length next =>
    if limit < length then .failed (.tooLong part length limit) next else .done length next

def readString (limit : Nat) (part : String) (cursor : Cursor) : Reply String :=
  (cursor.readLength limit part).andThen fun length next =>
    (next.readBytes length part).andThen fun bytes after =>
      match ofUtf8? bytes with
      | some text => .done text after
      | none => .failed (.invalidUtf8 part) after

end Cursor

/-! ### Sequences -/

inductive Primitive where
  | byte (value : UInt8)
  | bytes (data : Bytes)
  | bool (flag : Bool)
  | varint (n : Nat)
  | signed (n : Int)
  | string (text : String)
  deriving DecidableEq

def Output.primitive (out : Output) : Primitive → Output
  | .byte value => out.push value
  | .bytes data => out.bytes data
  | .bool flag => out.bool flag
  | .varint n => out.varint n
  | .signed n => out.signed n
  | .string text => out.string text

def Output.primitives (out : Output) (written : List Primitive) : Output :=
  written.foldl Output.primitive out

inductive Reading where
  | byte (reading : String)
  | bytes (count : Nat) (reading : String)
  | bool (reading : String)
  | varint (reading : String)
  | signed (reading : String)
  | length (limit : Nat) (part : String)
  | string (limit : Nat) (part : String)

namespace Cursor

def read (cursor : Cursor) : Reading → Reply Primitive
  | .byte reading => (cursor.readByte reading).map .byte
  | .bytes count reading => (cursor.readBytes count reading).map .bytes
  | .bool reading => (cursor.readBool reading).map .bool
  | .varint reading => (cursor.readVarint reading).map .varint
  | .signed reading => (cursor.readSigned reading).map .signed
  | .length limit part => (cursor.readLength limit part).map .varint
  | .string limit part => (cursor.readString limit part).map .string

def readAll (cursor : Cursor) : List Reading → Reply (List Primitive)
  | [] => .done [] cursor
  | reading :: rest =>
      (cursor.read reading).andThen fun value next => (next.readAll rest).map (value :: ·)

end Cursor

end EntityCatalog
