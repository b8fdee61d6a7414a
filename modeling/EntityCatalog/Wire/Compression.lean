import EntityCatalog.Text

/- Compressed data as a stream of bytes that ends normally or breaks off. The method is a parameter: a
   packed payload may unpack to anything at all. One such method is that of Zstandard frames: a header,
   then blocks up to one that is marked as the last. A block is stored, or repeats one byte; blocks that
   need entropy decoding, checksums and dictionaries are not known. Packing writes one frame of stored
   blocks. -/
namespace EntityCatalog

/-! ### Streams and methods -/

inductive Run where
  | literal (bytes : Bytes)
  | repeated (byte : UInt8) (count : Nat)
  deriving DecidableEq

def Run.bytes : Run → Bytes
  | .literal bytes => bytes
  | .repeated byte count => List.replicate count byte

def Run.take (limit : Nat) : Run → Bytes
  | .literal bytes => bytes.take limit
  | .repeated byte count => List.replicate (min limit count) byte

/-- What a payload unpacks to; not `intact` when an error follows the bytes. -/
structure Stream where
  runs : List Run
  intact : Bool
  deriving DecidableEq

def Stream.bytes (stream : Stream) : Bytes := stream.runs.flatMap Run.bytes

def takeRuns (found : Array UInt8) (limit : Nat) : List Run → Array UInt8
  | [] => found
  | run :: rest =>
      if limit = 0 then found
      else
        let part := run.take limit
        takeRuns (found ++ part) (limit - part.length) rest

def Stream.take (limit : Nat) (stream : Stream) : Bytes :=
  (takeRuns #[] limit stream.runs).toList

/-- A compression method. The level trades size for time and has no meaning here. Unpacking is told
    how many bytes are expected; it need not go on once it has found more. -/
structure Compression where
  pack : Int32 → Bytes → Option Bytes
  unpack : Nat → Bytes → Stream

def Compression.Faithful (method : Compression) : Prop :=
  ∀ level bytes payload, method.pack level bytes = some payload →
    (method.unpack bytes.length payload).bytes = bytes ∧
      (method.unpack bytes.length payload).intact = true

/-! ### Frames -/

def littleEndian (bytes : Bytes) : Nat :=
  bytes.foldr (fun byte rest => byte.toNat + 256 * rest) 0

def maxBlockLength : Nat := 128 * 1024

namespace Frame

def magic : Bytes := [0x28, 0xB5, 0x2F, 0xFD]

/-- What a frame says of itself before its blocks: the size of its content, the window over which
    later blocks may look back, and the bytes that the header takes up. -/
structure Header where
  contentLength : Option Nat
  window : Nat
  extent : Nat
  deriving DecidableEq

def Header.blockLimit (header : Header) : Nat := min header.window maxBlockLength

/-- The window that a window descriptor stands for: a power of two and eighths of it. -/
def windowLength (descriptor : UInt8) : Nat :=
  let base := 1024 <<< (descriptor.toNat / 8)
  base + base / 8 * (descriptor.toNat % 8)

/-- Windows from four gibibytes on have no descriptor. -/
def maxWindowDescriptor : Nat := 21 * 8 + 7

def contentLengthWidth (code : Nat) (singleSegment : Bool) : Nat :=
  if code = 0 then if singleSegment then 1 else 0 else 1 <<< code

/-- Sizes of two bytes are counted from 256; the greatest of eight bytes says nothing. -/
def contentLength? (bytes : Bytes) : Option Nat :=
  if bytes.length = 0 then none
  else if bytes.length = 2 then some (littleEndian bytes + 256)
  else if littleEndian bytes + 1 = UInt64.size then none
  else some (littleEndian bytes)

/-- Reads a header and the magic before it. In a frame of a single segment the content is its own
    window. -/
def readHeader? (input : Bytes) : Option Header :=
  if magic.isPrefixOf input then
    match input.drop 4 with
    | [] => none
    | descriptor :: rest =>
        let singleSegment := descriptor.toNat / 32 % 2 = 1
        let windowWidth := if singleSegment then 0 else 1
        let width := contentLengthWidth (descriptor.toNat / 64) singleSegment
        let size := (rest.drop windowWidth).take width
        let windowDescriptor := rest.headD 0
        if descriptor.toNat % 16 ≠ 0 ∨ rest = [] ∨ size.length < width then none
        else if singleSegment then
          some ⟨contentLength? size, (contentLength? size).getD UInt64.size, 5 + width⟩
        else if maxWindowDescriptor < windowDescriptor.toNat then none
        else some ⟨contentLength? size, windowLength windowDescriptor, 6 + width⟩
  else none

/-- The bytes to be skipped after the eight of its header, if the input starts with a frame that is
    not meant for unpacking. -/
def readSkippable? (input : Bytes) : Option Nat :=
  match input with
  | mark :: 0x2A :: 0x4D :: 0x18 :: b0 :: b1 :: b2 :: b3 :: _ =>
      if mark.toNat / 16 = 5 then some (littleEndian [b0, b1, b2, b3]) else none
  | _ => none

inductive BlockKind where
  | stored
  | repeated
  | coded
  | reserved
  deriving DecidableEq

structure Block where
  isLast : Bool
  kind : BlockKind
  size : Nat
  deriving DecidableEq

/-- The three bytes hold, from the lowest bit on, the mark of the last block, the kind and the
    size. -/
def Block.ofBytes (b0 b1 b2 : UInt8) : Block :=
  let code := littleEndian [b0, b1, b2]
  let kind : BlockKind :=
    match code / 2 % 4 with
    | 0 => .stored
    | 1 => .repeated
    | 2 => .coded
    | _ => .reserved
  ⟨code % 2 = 1, kind, code / 8⟩

def Block.extent (block : Block) : Nat := if block.kind = .repeated then 1 else block.size

def Block.run? (block : Block) (data : Bytes) : Option Run :=
  match block.kind with
  | .stored => some (.literal data)
  | .repeated => some (.repeated (data.headD 0) block.size)
  | _ => none

structure Blocks where
  runs : Option (List Run)
  length : Nat
  extent : Nat
  deriving DecidableEq

/-- The blocks of a frame, provided that all of it is there. The sizes of blocks are not checked. -/
def readBlocks? : Bytes → Option Blocks
  | b0 :: b1 :: b2 :: rest =>
      let block := Block.ofBytes b0 b1 b2
      let data := rest.take block.extent
      let run := block.run? data
      if block.kind = .reserved ∨ data.length < block.extent then none
      else if block.isLast then some ⟨run.map ([·]), block.size, 3 + block.extent⟩
      else
        (readBlocks? (rest.drop block.extent)).map fun later =>
          ⟨run.bind fun first => later.runs.map (first :: ·), block.size + later.length,
            3 + block.extent + later.extent⟩
  | _ => none
termination_by input => input.length
decreasing_by simp only [List.length_drop, List.length_cons]; omega

def header : Bytes := magic ++ [0x00, 0x38]

def storedHeader (isLast : Bool) (size : Nat) : Bytes :=
  let code := size * 8 + if isLast then 1 else 0
  [UInt8.ofNat (code % 256), UInt8.ofNat (code / 256 % 256), UInt8.ofNat (code / 65536)]

def writeBlocks (out : Array UInt8) (bytes : Bytes) : Array UInt8 :=
  let block := bytes.take maxBlockLength
  let rest := bytes.drop maxBlockLength
  if rest = [] then out ++ storedHeader true block.length ++ block
  else writeBlocks (out ++ storedHeader false block.length ++ block) rest
termination_by bytes.length
decreasing_by
  have : rest.length ≠ 0 := fun none => by simp_all
  simp only [rest, List.length_drop, maxBlockLength] at *
  omega

end Frame

end EntityCatalog
