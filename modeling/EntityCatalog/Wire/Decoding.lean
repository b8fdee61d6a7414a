import EntityCatalog.Wire.Compression
import EntityCatalog.Wire.Primitives
import EntityCatalog.Wire.Encoding

/- Reading stored documents, plain or compressed, from bytes that may hold anything. Each length is
   checked against the limits before the bytes behind it are read. -/
namespace EntityCatalog
variable {α : Type}

/-- Reads a value so many times. The items already read are kept last first. -/
def readMany (readItem : Cursor → Reply α) : Nat → List α → Cursor → Reply (List α)
  | 0, items, cursor => .done items.reverse cursor
  | count + 1, items, cursor =>
      (readItem cursor).andThen fun item next => readMany readItem count (item :: items) next

/-- Reads so many fields into a document; a repeated name replaces the value at its first place. -/
def readFields (limits : Limits) (readValue : Cursor → Reply Value) :
    Nat → Document → Cursor → Reply Document
  | 0, d, cursor => .done d cursor
  | count + 1, d, cursor =>
      (cursor.readString limits.stringLength "field_name").andThen fun name next =>
        (readValue next).andThen fun value after =>
          readFields limits readValue count (d.set name value) after

def readDocument (limits : Limits) (readValue : Cursor → Reply Value) (cursor : Cursor) :
    Reply Document :=
  (cursor.readLength maxFields "field_count").andThen fun count next =>
    readFields limits readValue count .empty next

def readInt32 (cursor : Cursor) : Reply Value :=
  (cursor.readSigned "int32").andThen fun number next =>
    if Int32.minValue.toInt ≤ number ∧ number ≤ Int32.maxValue.toInt then
      .done (.int32 (Int32.ofInt number)) next
    else .failed (.int32OutOfRange number) next

def readTag (cursor : Cursor) : Reply Tag :=
  (cursor.readByte "value_tag").andThen fun byte next =>
    match Tag.ofByte? byte with
    | some tag => .done tag next
    | none => .failed (.invalidTag byte) next

/-- Reads what follows a tag. The values inside a container are read with `readInner?`, which is
    absent where no further container may be opened. -/
def readPayload (limits : Limits) (readInner? : Option (Cursor → Reply Value)) (tag : Tag)
    (cursor : Cursor) : Reply Value :=
  match tag with
  | .null => .done .null cursor
  | .bool => (cursor.readBool "bool").map .bool
  | .int32 => readInt32 cursor
  | .int64 => (cursor.readSigned "int64").map fun number => .int64 (Int64.ofInt number)
  | .string => (cursor.readString limits.stringLength "string").map .string
  | .array =>
      match readInner? with
      | none => .failed (.nestedTooDeep limits.depth) cursor
      | some readInner =>
          (cursor.readLength limits.arrayLength "array_len").andThen fun count next =>
            (readMany readInner count [] next).map .array
  | .document =>
      match readInner? with
      | none => .failed (.nestedTooDeep limits.depth) cursor
      | some readInner => (readDocument limits readInner cursor).map Document.toValue

def readValue (limits : Limits) : Nat → Cursor → Reply Value
  | 0, cursor => (readTag cursor).andThen (readPayload limits none)
  | room + 1, cursor => (readTag cursor).andThen (readPayload limits (some (readValue limits room)))

/-- Four bytes, with zeros for those that are missing. -/
def foundMagic (input : Bytes) : Bytes := (input.take 4 ++ [0, 0, 0, 0]).take 4

def decodePlain (limits : Limits) (input : Bytes) : Except ReadFault Document :=
  if plainMagic.isPrefixOf input = false then .error (.badMagic (foundMagic input))
  else if limits.documentSize < input.length then
    .error (.tooLong "document" input.length limits.documentSize)
  else
    match (Cursor.start (input.drop plainMagic.length)).readByte "version" with
    | .failed fault _ => .error fault
    | .done version next =>
        if version < oldestFormat ∨ currentFormat < version then .error (.unsupportedFormat version)
        else
          match readDocument limits (readValue limits limits.depth) next with
          | .failed fault _ => .error fault
          | .done d stop =>
              if stop.rest = [] then .ok d else .error (.trailingBytes stop.rest.length)

def isPacked (input : Bytes) : Bool := packedMagic.isPrefixOf input

/-- Unpacks what follows the magic of a compressed document: the size and the payload. One byte
    more than the size is enough to tell a wrong size. -/
def unpackSized (method : Compression) (limits : Limits) (input : Bytes) :
    Except ReadFault Bytes :=
  match (Cursor.start input).readLength limits.documentSize "uncompressed_size" with
  | .failed fault _ => .error fault
  | .done size next =>
      let stream := method.unpack size next.rest
      let bytes := stream.take (size + 1)
      if size < bytes.length then .error (.sizeMismatch size bytes.length)
      else if stream.intact = false then .error .decompressionFailed
      else if bytes.length < size then .error (.sizeMismatch size bytes.length)
      else .ok bytes

def decode (method : Compression) (limits : Limits) (input : Bytes) :
    Except ReadFault Document :=
  if input.length < plainMagic.length then .error (.endOfInput "magic")
  else if isPacked input then
    match unpackSized method limits (input.drop packedMagic.length) with
    | .error fault => .error fault
    | .ok bytes => decodePlain limits bytes
  else decodePlain limits input

def decompress (method : Compression) (input : Bytes) : Except ReadFault Bytes :=
  if input.length < packedMagic.length then .error (.endOfInput "magic")
  else if isPacked input then unpackSized method .caps (input.drop packedMagic.length)
  else .error (.badMagic (foundMagic input))

def encodePacked (method : Compression) (level : Int32) (limits : Limits) (d : Document) :
    Except WriteFault Bytes :=
  match encode limits d with
  | .error fault => .error fault
  | .ok plain =>
      match method.pack level plain with
      | none => .error .compressionFailed
      | some payload => .ok (packedMagic ++ varint plain.length ++ payload)

end EntityCatalog
