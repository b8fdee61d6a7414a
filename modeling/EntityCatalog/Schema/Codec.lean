import EntityCatalog.Decimal.Text
import EntityCatalog.Document
import EntityCatalog.Graph.Indexed
import EntityCatalog.Graph
import EntityCatalog.Text

/- Values of the domain as document values and back, and what can be wrong with a document that should
   hold an entity. A codec carries the name under which its faults are reported. A graph is read into
   the form in which it is kept: its nodes first, and then its edges one after the other until an item
   of their list is at fault. -/
namespace EntityCatalog

/-! ### Faults -/

inductive Kind where
  | definitions
  | elements
  | structures
  | computations
  deriving DecidableEq

def Kind.text : Kind → String
  | .definitions => "definition"
  | .elements => "element"
  | .structures => "structure"
  | .computations => "computation"

inductive SchemaFault where
  | unsupportedVersion (kind : Kind) (version : Int32)
  | missingField (field : String)
  | mistyped (field expected found : String)
  | indexOutOfBounds (list : String) (index : Int) (size : Nat)
  | invalidDecimal (field text : String)
  | invalidTimestamp (field text : String)
  | invalidStatus (text : String)
  deriving DecidableEq

def SchemaFault.message : SchemaFault → String
  | .unsupportedVersion kind version =>
      "unsupported schema version " ++ toString version.toInt ++ " for " ++ kind.text
  | .missingField field => "missing field " ++ field
  | .mistyped field expected found =>
      "field " ++ field ++ " has type " ++ found ++ ", expected " ++ expected
  | .indexOutOfBounds list index size =>
      list ++ " index " ++ toString index ++ " out of bounds (size: " ++ toString size ++ ")"
  | .invalidDecimal field text => "invalid decimal in " ++ field ++ ": " ++ quoted text
  | .invalidTimestamp field text => "invalid timestamp in " ++ field ++ ": " ++ quoted text
  | .invalidStatus text => "invalid computation status: " ++ quoted text

/-- The one reason for which an entity has no document: more vertices than a 32-bit position can
    address. -/
structure GraphTooLarge where
  nodes : Nat
  deriving DecidableEq

def GraphTooLarge.message (fault : GraphTooLarge) : String :=
  "graph has " ++ toString fault.nodes ++ " nodes, more than an int32 index can address"

namespace Document
variable {α : Type}

def required (d : Document) (field : String) : Except SchemaFault Value :=
  match d.get? field with
  | some value => .ok value
  | none => .error (.missingField field)

/-- A value seen as one type, or the fault that names the type it has. -/
def expect (field expected : String) (view : Value → Option α) (value : Value) :
    Except SchemaFault α :=
  match view value with
  | some content => .ok content
  | none => .error (.mistyped field expected value.typeName)

def requiredString (d : Document) (field : String) : Except SchemaFault String :=
  (d.required field).bind (expect field "string" Value.string?)

def requiredInt32 (d : Document) (field : String) : Except SchemaFault Int32 :=
  (d.required field).bind (expect field "int32" Value.int32?)

def requiredArray (d : Document) (field : String) : Except SchemaFault (List Value) :=
  (d.required field).bind (expect field "array" Value.array?)

def requiredDocument (d : Document) (field : String) : Except SchemaFault Document :=
  (d.required field).bind (expect field "document" Value.document?)

end Document

/-! ### Codecs -/

section
variable {α N : Type}

structure Codec (α : Type) where
  encode : α → Except GraphTooLarge Value
  decode : Value → Except SchemaFault α

def Codec.Faithful (codec : Codec α) : Prop :=
  ∀ item value, codec.encode item = .ok value → codec.decode value = .ok item

def textCodec (field : String) (wrap : String → α) (unwrap : α → String) : Codec α where
  encode item := .ok (.string (unwrap item))
  decode value := (Document.expect field "string" Value.string? value).map wrap

def decimalCodec (field : String) : Codec Decimal where
  encode d := .ok (.string d.text)
  decode value :=
    match Document.expect field "string" Value.string? value with
    | .error fault => .error fault
    | .ok text =>
        match Decimal.parse text with
        | .ok d => .ok d
        | .error _ => .error (.invalidDecimal field text)

def maxPosition : Nat := 2147483647

namespace Graph

def nodesField : String := "nodes"
def edgesField : String := "edges"
def sourceField : String := "source"
def targetField : String := "target"

def edgeValue (edge : Nat × Nat) : Value :=
  .document [(sourceField, .int32 (Int32.ofNat edge.1)), (targetField, .int32 (Int32.ofNat edge.2))]

/-- The node at a position of the list as it was stored, repeats included. -/
def nodeAt (nodes : List N) (index : Int32) : Except SchemaFault N :=
  let outOfBounds := .error (.indexOutOfBounds nodesField index.toInt nodes.length)
  if index.toInt < 0 then outOfBounds
  else
    match nodes[index.toInt.toNat]? with
    | some node => .ok node
    | none => outOfBounds

def readEdge (nodes : List N) (value : Value) : Except SchemaFault (N × N) := do
  let edge ← Document.expect edgesField "document" Value.document? value
  let source ← nodeAt nodes (← edge.requiredInt32 sourceField)
  let target ← nodeAt nodes (← edge.requiredInt32 targetField)
  return (source, target)

def codec [DecidableEq N] (node : Codec N) : Codec (Graph N) where
  encode g :=
    if maxPosition < g.nodeCount then .error ⟨g.nodeCount⟩
    else do
      let nodes ← g.nodes.mapM node.encode
      return .document
        [(nodesField, .array nodes), (edgesField, .array (g.edgeIndices.map edgeValue))]
  decode value := do
    let d ← Document.expect "graph" "document" Value.document? value
    let nodes ← (← d.requiredArray nodesField).mapM node.decode
    let edges ← (← d.requiredArray edgesField).mapM (readEdge nodes)
    return ofLists nodes edges

end Graph

end

/-! ### Reading a graph into the form in which it is kept -/

namespace IndexedGraph
variable {N : Type} [DecidableEq N]

def addNodes (g : IndexedGraph N) (nodes : List N) : IndexedGraph N :=
  nodes.foldl (fun g node => (g.addNode node).1) g

def putItems (nodes : List N) (g : IndexedGraph N) :
    List Value → Except SchemaFault (IndexedGraph N)
  | [] => .ok g
  | item :: rest => do
      let edge ← Graph.readEdge nodes item
      putItems nodes (g.putEdge edge.1 edge.2).1 rest

def read (node : Codec N) (value : Value) : Except SchemaFault (IndexedGraph N) := do
  let d ← Document.expect "graph" "document" Value.document? value
  let nodes ← (← d.requiredArray Graph.nodesField).mapM node.decode
  putItems nodes (empty.addNodes nodes) (← d.requiredArray Graph.edgesField)

end IndexedGraph

end EntityCatalog
