import EntityCatalog.Formula
import EntityCatalog.Graph
import EntityCatalog.SortedMap
import EntityCatalog.Text

/- What the catalog holds. A structure is a graph of elements, an element a name with a set of
   numeric definitions; a computation asks for the value of a formula at one element. The two kinds of
   identity are types of their own, so that neither can stand for the other. A fresh identity is a
   random UUID, here a function of its random bits. -/
namespace EntityCatalog

/-! ### Names and identities -/

structure Name where
  text : String
  deriving DecidableEq, Inhabited

structure StructureId where
  text : String
  deriving DecidableEq, Inhabited

structure ComputationId where
  text : String
  deriving DecidableEq, Inhabited

def Name.order : Name → Name → Ordering := orderOn byteOrder Name.text

def StructureId.order : StructureId → StructureId → Ordering := orderOn byteOrder StructureId.text

def ComputationId.order : ComputationId → ComputationId → Ordering :=
  orderOn byteOrder ComputationId.text

instance : Std.TransCmp Name.order := inferInstanceAs (Std.TransCmp (orderOn _ _))

instance : Std.TransCmp StructureId.order := inferInstanceAs (Std.TransCmp (orderOn _ _))

instance : Std.TransCmp ComputationId.order := inferInstanceAs (Std.TransCmp (orderOn _ _))

/-- The hexadecimal digits of a UUID of version 4: the thirteenth digit is the version, and the
    two high bits of the seventeenth mark the variant. -/
def uuidDigits (entropy : Nat) : List Char :=
  (List.range 32).map fun place =>
    let digit := entropy >>> (4 * place) % 16
    Nat.digitChar (if place = 12 then 4 else if place = 16 then 8 + digit % 4 else digit)

def uuidText (entropy : Nat) : String :=
  let digits := uuidDigits entropy
  let part := fun start width => (digits.drop start).take width
  String.ofList (part 0 8 ++ '-' :: (part 8 4 ++ '-' :: (part 12 4 ++ '-' :: (part 16 4 ++
    '-' :: part 20 12))))

def StructureId.fresh (entropy : Nat) : StructureId := ⟨uuidText entropy⟩

def ComputationId.fresh (entropy : Nat) : ComputationId := ⟨uuidText entropy⟩

def isUuidText (text : String) : Bool :=
  let chars := text.toList
  let isDash := fun place => place = 8 || place = 13 || place = 18 || place = 23
  chars.length = 36 &&
    (chars.zipIdx.all fun (c, place) =>
      if isDash place then c = '-'
      else if place = 14 then c = '4'
      else if place = 19 then ['8', '9', 'a', 'b'].contains c
      else c.isDigit || ('a' ≤ c && c ≤ 'f'))

/-! ### Entities -/

structure Definition where
  name : Name
  value : Decimal
  deriving DecidableEq

def Definition.order : Definition → Definition → Ordering :=
  compareLex (orderOn Name.order Definition.name) (orderOn Decimal.order Definition.value)

instance : Std.TransCmp Definition.order := inferInstanceAs (Std.TransCmp (compareLex _ _))

abbrev DefinitionSet := SortedMap Definition Unit Definition.order

structure Element where
  name : Name
  definitions : DefinitionSet
  deriving DecidableEq

namespace Element

def of (name : Name) (definitions : List Definition) : Element := ⟨name, .ofKeys definitions⟩

def named (name : Name) : Element := of name []

def valuesOf (element : Element) (name : String) : List Decimal :=
  (element.definitions.keys.filter fun definition => definition.name.text = name).map
    Definition.value

def order : Element → Element → Ordering :=
  compareLex (orderOn Name.order Element.name)
    (orderOn (List.compareLex Definition.order) fun element => element.definitions.keys)

end Element

structure Structure where
  id : StructureId
  elements : Graph Element

namespace Structure

def withId (s : Structure) (id : StructureId) : Structure := { s with id := id }

def empty (id : StructureId) : Structure := ⟨id, .empty⟩

def element? (s : Structure) (name : String) : Option Element :=
  s.elements.nodes.find? fun element => element.name.text = name

def same (left right : Structure) : Bool :=
  left.id = right.id && left.elements.same right.elements

end Structure

inductive Status where
  | new
  | computing
  | failed
  | done
  deriving DecidableEq, Inhabited

namespace Status

def text : Status → String
  | .new => "NEW"
  | .computing => "COMPUTING"
  | .failed => "FAILED"
  | .done => "DONE"

def ofText? (text : String) : Option Status :=
  if text = "NEW" then some .new
  else if text = "COMPUTING" then some .computing
  else if text = "FAILED" then some .failed
  else if text = "DONE" then some .done
  else none

end Status

structure Computation where
  id : ComputationId
  structureId : StructureId
  elementName : Name
  formula : Formula
  status : Status
  result : Option Decimal
  deriving DecidableEq

namespace Computation

def withId (c : Computation) (id : ComputationId) : Computation := { c with id := id }

def withStatus (c : Computation) (status : Status) : Computation := { c with status := status }

end Computation

end EntityCatalog
