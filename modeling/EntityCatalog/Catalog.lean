import EntityCatalog.Document
import EntityCatalog.Schema.Entities
import EntityCatalog.Store
import EntityCatalog.Text

/- The catalog of structures and computations over a gateway. Entities become documents on the way
   in and are rebuilt on the way out. Fresh identities and the time of writing are given to the
   operations that need them. A list request names documents by id and fields by their public names;
   a table pairs each public name with the stored field behind it. -/
namespace EntityCatalog

/-! ### List requests -/

structure TableEntry where
  publicName : String
  field : String
  deriving DecidableEq

abbrev Table := List TableEntry

def publicId : String := "id"

def structureTable : Table := [⟨publicId, idField⟩, ⟨"elements", elementsField⟩]

def computationTable : Table :=
  [⟨publicId, idField⟩, ⟨"structureId", structureIdField⟩, ⟨"elementName", elementNameField⟩,
    ⟨"expression", expressionField⟩, ⟨"status", statusField⟩, ⟨"result", resultField⟩]

/-- No ids stand for every document, no fields for every field. -/
structure ListQuery where
  ids : List String
  fields : List String
  deriving DecidableEq

def appendNew (texts : List String) (text : String) : List String :=
  if texts.contains text then texts else texts ++ [text]

/-- The segments between commas without the white space around them; empty segments and repeats
    are dropped. -/
def splitRequest (raw : String) : List String :=
  let segments := (raw.toList.splitOn ',').map trimBlank
  ((segments.filter (· ≠ [])).map String.ofList).foldl appendNew []

def ListQuery.ofParameters (ids fields : Option String) : ListQuery :=
  ⟨ids.elim [] splitRequest, fields.elim [] splitRequest⟩

namespace Table

def select (table : Table) (requested : List String) : Table :=
  if requested = [] then table
  else table.filter fun entry =>
    entry.publicName = publicId || requested.contains entry.publicName

def storedFields (table : Table) : List String := table.map TableEntry.field

/-- The stored values that the document has, under their public names. -/
def row (table : Table) (d : Document) : Document :=
  Document.ofFields (table.filterMap fun entry =>
    (d.get? entry.field).map fun value => (entry.publicName, value))

end Table

/-! ### Operations -/

section
variable {σ : Type}

inductive CatalogFault where
  | storage (fault : StoreFault)
  | unreadable (fault : SchemaFault)
  | notWritable (fault : GraphTooLarge)
  deriving DecidableEq

def CatalogFault.message : CatalogFault → String
  | .storage fault => fault.message
  | .unreadable fault => fault.message
  | .notWritable fault => fault.message

def structureCollection : String := "structures"
def computationCollection : String := "computations"

structure Catalog (σ : Type) where
  gateway : Gateway σ
  settings : Settings
  state : σ

namespace Catalog

def inMemory (method : Compression) (settings : Settings) : Catalog Store :=
  ⟨.memory method, settings, .new settings⟩

def putDocument (catalog : Catalog σ) (collection id : String) (d : Document) :
    Except CatalogFault (Catalog σ) :=
  match catalog.gateway.put catalog.state collection id d with
  | .error fault => .error (.storage fault)
  | .ok state => .ok { catalog with state := state }

def putStructure (catalog : Catalog σ) (s : Structure) (now : Int) :
    Except CatalogFault (Catalog σ) :=
  match Structure.envelope.encodeDocument s now with
  | .error fault => .error (.notWritable fault)
  | .ok d => catalog.putDocument structureCollection s.id.text d

def putComputation (catalog : Catalog σ) (c : Computation) (now : Int) :
    Except CatalogFault (Catalog σ) :=
  match Computation.envelope.encodeDocument c now with
  | .error fault => .error (.notWritable fault)
  | .ok d => catalog.putDocument computationCollection c.id.text d

/-- Stores a copy under a fresh id, which comes back beside the catalog. -/
def createStructure (catalog : Catalog σ) (fresh : StructureId) (s : Structure) (now : Int) :
    Except CatalogFault (Catalog σ × Structure) :=
  let created := s.withId fresh
  (catalog.putStructure created now).map fun next => (next, created)

def updateStructure (catalog : Catalog σ) (s : Structure) (now : Int) :
    Except CatalogFault (Catalog σ × Structure) :=
  (catalog.putStructure s now).map fun next => (next, s)

/-- Stores a copy as a new computation under a fresh id; status and result are not taken over. -/
def createComputation (catalog : Catalog σ) (fresh : ComputationId) (c : Computation)
    (now : Int) : Except CatalogFault (Catalog σ × Computation) :=
  let created := { c with id := fresh, status := .new, result := none }
  (catalog.putComputation created now).map fun next => (next, created)

def readStored {α : Type} (read : Document → Except SchemaFault α)
    (found : Except StoreFault (Option Document)) : Except CatalogFault (Option α) :=
  match found with
  | .error fault => .error (.storage fault)
  | .ok none => .ok none
  | .ok (some d) => ((read d).mapError CatalogFault.unreadable).map some

def getStructure (catalog : Catalog σ) (id : StructureId) :
    Except CatalogFault (Option Structure) :=
  readStored Structure.envelope.decodeDocument
    (catalog.gateway.get catalog.state structureCollection id.text)

def getComputation (catalog : Catalog σ) (id : ComputationId) :
    Except CatalogFault (Option Computation) :=
  readStored Computation.envelope.decodeDocument
    (catalog.gateway.get catalog.state computationCollection id.text)

def deleteDocument (catalog : Catalog σ) (collection id : String) :
    Except CatalogFault (Catalog σ × Bool) :=
  match catalog.gateway.delete catalog.state collection id with
  | .error fault => .error (.storage fault)
  | .ok (state, removed) => .ok ({ catalog with state := state }, removed)

def deleteStructure (catalog : Catalog σ) (id : StructureId) :
    Except CatalogFault (Catalog σ × Bool) :=
  catalog.deleteDocument structureCollection id.text

def deleteComputation (catalog : Catalog σ) (id : ComputationId) :
    Except CatalogFault (Catalog σ × Bool) :=
  catalog.deleteDocument computationCollection id.text

/-- Only the stored fields behind the selection are fetched. -/
def listRows (catalog : Catalog σ) (collection : String) (table : Table) (query : ListQuery) :
    Except CatalogFault (List Document) :=
  let selected := table.select query.fields
  match catalog.gateway.find catalog.state collection query.ids (some selected.storedFields) with
  | .error fault => .error (.storage fault)
  | .ok documents => .ok (documents.map selected.row)

def listStructures (catalog : Catalog σ) (query : ListQuery) :
    Except CatalogFault (List Document) :=
  catalog.listRows structureCollection structureTable query

def listComputations (catalog : Catalog σ) (query : ListQuery) :
    Except CatalogFault (List Document) :=
  catalog.listRows computationCollection computationTable query

def describe (catalog : Catalog σ) : String :=
  "Catalog \x7b database: Database \x7b config: " ++ catalog.settings.describe ++
    ", .. \x7d, .. \x7d"

end Catalog

end

end EntityCatalog
