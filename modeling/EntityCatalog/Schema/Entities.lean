import EntityCatalog.Entity
import EntityCatalog.Schema.Envelope

/- The schema versions of each kind of entity. Definitions, elements and structures have one
   version. Computations are written in version 2; version 1 had neither status nor result. -/
namespace EntityCatalog

def nameField : String := "name"
def valueField : String := "value"
def definitionsField : String := "definitions"
def elementsField : String := "elements"
def structureIdField : String := "structureId"
def elementNameField : String := "elementName"
def expressionField : String := "expression"
def statusField : String := "status"
def resultField : String := "result"

def nameCodec (field : String) : Codec Name := textCodec field Name.mk Name.text

def formulaCodec (field : String) : Codec Formula := textCodec field Formula.mk Formula.text

def structureIdCodec (field : String) : Codec StructureId :=
  textCodec field StructureId.mk StructureId.text

def computationIdCodec (field : String) : Codec ComputationId :=
  textCodec field ComputationId.mk ComputationId.text

def Document.decodeField {α : Type} (d : Document) (field : String) (codec : Codec α) :
    Except SchemaFault α :=
  (d.required field).bind codec.decode

def Definition.write (definition : Definition) (d : Document) :
    Except GraphTooLarge Document := do
  let name ← (nameCodec nameField).encode definition.name
  let value ← (decimalCodec valueField).encode definition.value
  return (d.set nameField name).set valueField value

def Definition.read (d : Document) : Except SchemaFault Definition := do
  let name ← d.decodeField nameField (nameCodec nameField)
  let value ← d.decodeField valueField (decimalCodec valueField)
  return ⟨name, value⟩

def Definition.envelope : Envelope Definition :=
  (Envelope.writing .definitions 1 Definition.write).reading 1 Definition.read

def Element.write (element : Element) (d : Document) : Except GraphTooLarge Document := do
  let definitions ← element.definitions.keys.mapM Definition.envelope.codec.encode
  let name ← (nameCodec nameField).encode element.name
  return (d.set nameField name).set definitionsField (.array definitions)

def Element.read (d : Document) : Except SchemaFault Element := do
  let definitions ←
    (← d.requiredArray definitionsField).mapM Definition.envelope.codec.decode
  let name ← d.decodeField nameField (nameCodec nameField)
  return .of name definitions

def Element.envelope : Envelope Element :=
  (Envelope.writing .elements 1 Element.write).reading 1 Element.read

def Structure.write (s : Structure) (d : Document) : Except GraphTooLarge Document := do
  let elements ← (Graph.codec Element.envelope.codec).encode s.elements
  return d.set elementsField elements

def Structure.read (id : StructureId) (d : Document) : Except SchemaFault Structure := do
  let elements ← d.decodeField elementsField (Graph.codec Element.envelope.codec)
  return ⟨id, elements⟩

def Structure.envelope : IdentifiedEnvelope Structure StructureId :=
  (IdentifiedEnvelope.writing .structures 1 Structure.id (structureIdCodec idField)
    Structure.write).reading 1 Structure.read

def Computation.write (c : Computation) (d : Document) : Except GraphTooLarge Document := do
  let result ←
    match c.result with
    | some value => (decimalCodec resultField).encode value
    | none => .ok .null
  let structureId ← (structureIdCodec structureIdField).encode c.structureId
  let elementName ← (nameCodec elementNameField).encode c.elementName
  let formula ← (formulaCodec expressionField).encode c.formula
  return ((((d.set structureIdField structureId).set elementNameField elementName).set
    expressionField formula).set statusField (.string c.status.text)).set resultField result

/-- Version 1: the computation is new and has no result. -/
def Computation.readFirst (id : ComputationId) (d : Document) :
    Except SchemaFault Computation := do
  let structureId ← d.decodeField structureIdField (structureIdCodec structureIdField)
  let elementName ← d.decodeField elementNameField (nameCodec elementNameField)
  let formula ← d.decodeField expressionField (formulaCodec expressionField)
  return ⟨id, structureId, elementName, formula, .new, none⟩

def Status.readField (d : Document) : Except SchemaFault Status := do
  let text ← d.requiredString statusField
  match Status.ofText? text with
  | some status => return status
  | none => throw (.invalidStatus text)

/-- Version 2: the status is required, and the result may be absent or null. -/
def Computation.readSecond (id : ComputationId) (d : Document) :
    Except SchemaFault Computation := do
  let status ← Status.readField d
  let result ←
    match d.getOptional? resultField with
    | some value => ((decimalCodec resultField).decode value).map some
    | none => .ok none
  let c ← Computation.readFirst id d
  return { c with status := status, result := result }

def Computation.envelope : IdentifiedEnvelope Computation ComputationId :=
  ((IdentifiedEnvelope.writing .computations 2 Computation.id (computationIdCodec idField)
    Computation.write).reading 1 Computation.readFirst).reading 2 Computation.readSecond

def Kind.currentVersion : Kind → Int32
  | .definitions => Definition.envelope.version
  | .elements => Element.envelope.version
  | .structures => Structure.envelope.version
  | .computations => Computation.envelope.version

def Kind.supportedVersions : Kind → List Int32
  | .definitions => Definition.envelope.supportedVersions
  | .elements => Element.envelope.supportedVersions
  | .structures => Structure.envelope.supportedVersions
  | .computations => Computation.envelope.supportedVersions

end EntityCatalog
