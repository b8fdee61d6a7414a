import EntityCatalog.SortedMap
import EntityCatalog.Text
import EntityCatalog.Wire.Decoding
import EntityCatalog.Wire.Primitives

/- A store of documents in named collections, each document under an id. Documents are kept in
   their stored form, so whatever is read back has been through the writer and the reader. The settings
   say whether they are compressed, and under which limits they are written. -/
namespace EntityCatalog

/-! ### Settings -/

structure Settings where
  compressed : Bool
  level : Int32
  limits : Limits
  deriving DecidableEq

namespace Settings

def standard : Settings := ⟨false, 3, .caps⟩

instance : Inhabited Settings := ⟨standard⟩

def compressKey : String := "COMPUTATION_COMPRESS"
def levelKey : String := "COMPUTATION_COMPRESSION_LEVEL"

/-- Upper and lower case are the same, and so is white space around the word. -/
def readFlag? (raw : String) : Option Bool :=
  let word := String.ofList ((trimBlank raw.toList).map Char.toLower)
  if word = "1" ∨ word = "true" then some true
  else if word = "0" ∨ word = "false" then some false
  else none

def readInteger? (chars : List Char) : Option Int :=
  let number? := fun digits : List Char =>
    if digits ≠ [] ∧ digits.all Char.isDigit then some (Nat.ofDigitChars 10 digits 0) else none
  match chars with
  | '-' :: digits => (number? digits).map fun n => -(n : Int)
  | '+' :: digits => (number? digits).map Int.ofNat
  | digits => (number? digits).map Int.ofNat

def IsLevel (level : Int) : Prop := -131072 ≤ level ∧ level ≤ 22

instance (level : Int) : Decidable (IsLevel level) := inferInstanceAs (Decidable (_ ∧ _))

def readLevel? (raw : String) : Option Int32 :=
  match readInteger? (trimBlank raw.toList) with
  | some level => if IsLevel level then some (Int32.ofInt level) else none
  | none => none

/-- The standard settings, changed by the variables that are set and can be read. -/
def ofLookup (lookup : String → Option String) : Settings :=
  { standard with
    compressed := ((lookup compressKey).bind readFlag?).getD standard.compressed
    level := ((lookup levelKey).bind readLevel?).getD standard.level }

def describe (settings : Settings) : String :=
  "StoreConfig \x7b compression: CompressionConfig \x7b enabled: " ++
    toString settings.compressed ++ ", level: " ++ toString settings.level.toInt ++
    " \x7d, limits: LimitsConfig \x7b max_document_size: " ++
    toString settings.limits.documentSize ++ ", max_string_len: " ++
    toString settings.limits.stringLength ++ ", max_array_len: " ++
    toString settings.limits.arrayLength ++ ", max_depth: " ++
    toString settings.limits.depth ++ " \x7d \x7d"

end Settings

/-! ### Collections -/

inductive StoreFault where
  | backend (reason : String)
  | unreadable (fault : ReadFault)
  | notStorable (fault : WriteFault)
  deriving DecidableEq

def StoreFault.message : StoreFault → String
  | .backend reason => "storage backend failure: " ++ reason
  | .unreadable fault => "stored document is unreadable: " ++ fault.message
  | .notStorable fault => "document cannot be stored: " ++ fault.message

abbrev Collection := SortedMap String Bytes byteOrder

structure Store where
  settings : Settings
  collections : SortedMap String Collection byteOrder

namespace Store

def new (settings : Settings) : Store := ⟨settings, .empty⟩

def collection (store : Store) (name : String) : Collection :=
  (store.collections.get? name).getD .empty

def size (store : Store) (name : String) : Nat := (store.collection name).size

def storedBytes (store : Store) (name : String) : Nat :=
  (store.collection name).totalOf List.length

def clear (store : Store) : Store := { store with collections := .empty }

def pack (method : Compression) (settings : Settings) (d : Document) :
    Except StoreFault Bytes :=
  let written :=
    if settings.compressed then encodePacked method settings.level settings.limits d
    else encode settings.limits d
  written.mapError .notStorable

def unpack (method : Compression) (settings : Settings) (bytes : Bytes) :
    Except StoreFault Document :=
  (decode method settings.limits bytes).mapError .unreadable

/-- Replaces the document under the id; a document that cannot be stored changes nothing. -/
def put (method : Compression) (store : Store) (name id : String) (d : Document) :
    Except StoreFault Store :=
  match pack method store.settings d with
  | .error fault => .error fault
  | .ok bytes =>
      .ok { store with
        collections := store.collections.insert name ((store.collection name).insert id bytes) }

def get (method : Compression) (store : Store) (name id : String) :
    Except StoreFault (Option Document) :=
  match (store.collection name).get? id with
  | none => .ok none
  | some bytes => (unpack method store.settings bytes).map some

def delete (store : Store) (name id : String) : Store × Bool :=
  match store.collections.get? name with
  | none => (store, false)
  | some documents =>
      ({ store with collections := store.collections.insert name (documents.erase id) },
        documents.contains id)

/-- The documents with one of the ids, or all of them if no id is given, in the byte order of the
    ids, each cut down to the fields asked for. -/
def find (method : Compression) (store : Store) (name : String) (ids : List String)
    (fields : Option (List String)) : Except StoreFault (List Document) :=
  let chosen :=
    (store.collection name).entries.filter fun entry => ids.isEmpty || ids.contains entry.1
  chosen.mapM fun entry =>
    (unpack method store.settings entry.2).map fun d => fields.elim d d.restrict

def documentCount (store : Store) : Nat := store.collections.totalOf SortedMap.size

def describe (store : Store) : String :=
  "MemoryStore \x7b collections: " ++ toString store.collections.size ++ ", documents: " ++
    toString store.documentCount ++ " \x7d"

end Store

structure Gateway (σ : Type) where
  put : σ → String → String → Document → Except StoreFault σ
  get : σ → String → String → Except StoreFault (Option Document)
  delete : σ → String → String → Except StoreFault (σ × Bool)
  find : σ → String → List String → Option (List String) → Except StoreFault (List Document)

namespace Gateway

def memory (method : Compression) : Gateway Store where
  put := Store.put method
  get := Store.get method
  delete store name id := .ok (store.delete name id)
  find := Store.find method

def unavailable (reason : String) : Gateway Unit where
  put _ _ _ _ := .error (.backend reason)
  get _ _ _ := .error (.backend reason)
  delete _ _ _ := .error (.backend reason)
  find _ _ _ _ := .error (.backend reason)

end Gateway

end EntityCatalog
