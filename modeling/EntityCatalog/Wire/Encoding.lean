import EntityCatalog.Document
import EntityCatalog.Wire.Primitives

/- The stored form of a document: the magic bytes, the format version, and the fields, each a name
   and a tagged value, whose tag tells its type. A document may be checked against the limits first and
   then written, or checked on the way: a limit is checked when the writer gets to the part that it
   bounds, and what has been written by then is dropped if the check fails. -/
namespace EntityCatalog

/-! ### Tags -/

inductive Tag where
  | null
  | bool
  | int32
  | int64
  | string
  | array
  | document
  deriving DecidableEq

namespace Tag

def byte : Tag → UInt8
  | .null => 0
  | .bool => 1
  | .int32 => 2
  | .int64 => 3
  | .string => 4
  | .array => 5
  | .document => 6

def ofByte? (byte : UInt8) : Option Tag :=
  if byte = 0 then some .null
  else if byte = 1 then some .bool
  else if byte = 2 then some .int32
  else if byte = 3 then some .int64
  else if byte = 4 then some .string
  else if byte = 5 then some .array
  else if byte = 6 then some .document
  else none

@[simp] theorem ofByte?_byte (tag : Tag) : ofByte? tag.byte = some tag := by
  cases tag <;> rfl

end Tag

/-! ### Checking first -/

def lengthFault? (part : String) (length limit : Nat) : Option WriteFault :=
  if limit < length then some (.tooLong part length limit) else none

mutual

/-- The first fault in writing order; `room` is how many more containers may be opened. -/
def Value.fault? (limits : Limits) (room : Nat) : Value → Option WriteFault
  | .string text => lengthFault? "string" text.utf8ByteSize limits.stringLength
  | .array items =>
      match room with
      | 0 => some (.nestedTooDeep limits.depth)
      | room + 1 =>
          match lengthFault? "array_len" items.length limits.arrayLength with
          | some fault => some fault
          | none => itemsFault? limits room items
  | .document fields =>
      match room with
      | 0 => some (.nestedTooDeep limits.depth)
      | room + 1 =>
          match lengthFault? "field_count" fields.length maxFields with
          | some fault => some fault
          | none => fieldsFault? limits room fields
  | _ => none

def itemsFault? (limits : Limits) (room : Nat) : List Value → Option WriteFault
  | [] => none
  | item :: rest =>
      match item.fault? limits room with
      | some fault => some fault
      | none => itemsFault? limits room rest

def fieldsFault? (limits : Limits) (room : Nat) : List (String × Value) → Option WriteFault
  | [] => none
  | (name, value) :: rest =>
      match lengthFault? "field_name" name.utf8ByteSize limits.stringLength with
      | some fault => some fault
      | none =>
          match value.fault? limits room with
          | some fault => some fault
          | none => fieldsFault? limits room rest

end

def Document.fault? (limits : Limits) (d : Document) : Option WriteFault :=
  match lengthFault? "field_count" d.fields.length maxFields with
  | some fault => some fault
  | none => fieldsFault? limits limits.depth d.fields

mutual

def Value.write (out : Output) : Value → Output
  | .null => out.push Tag.null.byte
  | .bool flag => Output.bool (out.push Tag.bool.byte) flag
  | .int32 number => Output.signed (out.push Tag.int32.byte) number.toInt
  | .int64 number => Output.signed (out.push Tag.int64.byte) number.toInt
  | .string text => Output.string (out.push Tag.string.byte) text
  | .array items => writeItems (Output.varint (out.push Tag.array.byte) items.length) items
  | .document fields =>
      writeFields (Output.varint (out.push Tag.document.byte) fields.length) fields

def writeItems (out : Output) : List Value → Output
  | [] => out
  | item :: rest => writeItems (item.write out) rest

def writeFields (out : Output) : List (String × Value) → Output
  | [] => out
  | (name, value) :: rest => writeFields (value.write (out.string name)) rest

end

def Document.write (out : Output) (d : Document) : Output :=
  writeFields (out.varint d.fields.length) d.fields

def Document.bytes (d : Document) : Bytes :=
  (d.write (plainMagic ++ [currentFormat]).toArray).toList

def encode (limits : Limits) (d : Document) : Except WriteFault Bytes :=
  match d.fault? limits.capped with
  | some fault => .error fault
  | none =>
      match lengthFault? "document" d.bytes.length limits.capped.documentSize with
      | some fault => .error fault
      | none => .ok d.bytes

/-! ### Checking on the way -/

def checkLength (part : String) (length limit : Nat) : Except WriteFault Unit :=
  if limit < length then .error (.tooLong part length limit) else .ok ()

def descend (limits : Limits) (depth : Nat) : Except WriteFault Nat :=
  if limits.depth ≤ depth then .error (.nestedTooDeep limits.depth) else .ok (depth + 1)

mutual

/-- The tag stands in front of every check of the value. -/
def Value.writeChecked (limits : Limits) (depth : Nat) (out : Output) :
    Value → Except WriteFault Output
  | .null => .ok (out.push Tag.null.byte)
  | .bool flag => .ok (Output.bool (out.push Tag.bool.byte) flag)
  | .int32 number => .ok (Output.signed (out.push Tag.int32.byte) number.toInt)
  | .int64 number => .ok (Output.signed (out.push Tag.int64.byte) number.toInt)
  | .string text => do
      let out := out.push Tag.string.byte
      checkLength "string" text.utf8ByteSize limits.stringLength
      .ok (Output.string out text)
  | .array items => do
      let out := out.push Tag.array.byte
      let depth ← descend limits depth
      checkLength "array_len" items.length limits.arrayLength
      writeItemsChecked limits depth (Output.varint out items.length) items
  | .document fields => do
      let out := out.push Tag.document.byte
      let depth ← descend limits depth
      checkLength "field_count" fields.length maxFields
      writeFieldsChecked limits depth (Output.varint out fields.length) fields

def writeItemsChecked (limits : Limits) (depth : Nat) (out : Output) :
    List Value → Except WriteFault Output
  | [] => .ok out
  | item :: rest => do
      let out ← item.writeChecked limits depth out
      writeItemsChecked limits depth out rest

def writeFieldsChecked (limits : Limits) (depth : Nat) (out : Output) :
    List (String × Value) → Except WriteFault Output
  | [] => .ok out
  | (name, value) :: rest => do
      checkLength "field_name" name.utf8ByteSize limits.stringLength
      let out ← value.writeChecked limits depth (Output.string out name)
      writeFieldsChecked limits depth out rest

end

def Document.writeChecked (limits : Limits) (depth : Nat) (out : Output) (d : Document) :
    Except WriteFault Output := do
  checkLength "field_count" d.fields.length maxFields
  writeFieldsChecked limits depth (out.varint d.fields.length) d.fields

def encodeChecked (limits : Limits) (d : Document) : Except WriteFault Bytes := do
  let limits := limits.capped
  let out ← d.writeChecked limits 0 (plainMagic ++ [currentFormat]).toArray
  checkLength "document" out.size limits.documentSize
  .ok out.toList

end EntityCatalog
