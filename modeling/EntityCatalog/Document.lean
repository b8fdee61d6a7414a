/- Field documents. A document is a list of named values in the order in which the names were
   first set, each name once; values nest documents and arrays. -/
namespace EntityCatalog

inductive Value where
  | null
  | bool (flag : Bool)
  | int32 (number : Int32)
  | int64 (number : Int64)
  | string (text : String)
  | array (items : List Value)
  | document (fields : List (String × Value))

structure Document where
  fields : List (String × Value)

mutual

def Value.same : Value → Value → Bool
  | .null, .null => true
  | .bool left, .bool right => left == right
  | .int32 left, .int32 right => left == right
  | .int64 left, .int64 right => left == right
  | .string left, .string right => left == right
  | .array left, .array right => sameItems left right
  | .document left, .document right => sameFields left right
  | _, _ => false

def sameItems : List Value → List Value → Bool
  | [], [] => true
  | left :: lefts, right :: rights => left.same right && sameItems lefts rights
  | _, _ => false

def sameFields : List (String × Value) → List (String × Value) → Bool
  | [], [] => true
  | (name, left) :: lefts, (other, right) :: rights =>
      name == other && (left.same right && sameFields lefts rights)
  | _, _ => false

end

mutual

theorem Value.same_iff (left right : Value) : left.same right = true ↔ left = right := by
  cases left <;> cases right <;> simp [Value.same]
  · exact sameItems_iff _ _
  · exact sameFields_iff _ _

theorem sameItems_iff (left right : List Value) : sameItems left right = true ↔ left = right := by
  cases left with
  | nil => cases right <;> simp [sameItems]
  | cons first rest =>
    cases right with
    | nil => simp [sameItems]
    | cons other others => simp [sameItems, Value.same_iff first other, sameItems_iff rest others]

theorem sameFields_iff (left right : List (String × Value)) :
    sameFields left right = true ↔ left = right := by
  cases left with
  | nil => cases right <;> simp [sameFields]
  | cons first rest =>
    obtain ⟨name, value⟩ := first
    cases right with
    | nil => simp [sameFields]
    | cons other others =>
      simp [sameFields, Value.same_iff value other.2, sameFields_iff rest others, Prod.ext_iff,
        and_assoc]

end

instance : DecidableEq Value := fun left right =>
  decidable_of_iff (left.same right = true) (left.same_iff right)

instance : DecidableEq Document := fun left right =>
  decidable_of_iff (left.fields = right.fields)
    ⟨fun same => by cases left; cases right; simp_all, congrArg Document.fields⟩

instance : Inhabited Value := ⟨.null⟩

namespace Value

def typeName : Value → String
  | .null => "null"
  | .bool _ => "bool"
  | .int32 _ => "int32"
  | .int64 _ => "int64"
  | .string _ => "string"
  | .array _ => "array"
  | .document _ => "document"

def string? : Value → Option String
  | .string text => some text
  | _ => none

def int32? : Value → Option Int32
  | .int32 number => some number
  | _ => none

def array? : Value → Option (List Value)
  | .array items => some items
  | _ => none

def document? : Value → Option Document
  | .document fields => some ⟨fields⟩
  | _ => none

def isNull : Value → Bool
  | .null => true
  | _ => false

def ofOption : Option Value → Value
  | some value => value
  | none => .null

end Value

/-- A present name keeps its place; a new one goes last. -/
def setField (name : String) (value : Value) : List (String × Value) → List (String × Value)
  | [] => [(name, value)]
  | field :: rest =>
      if field.1 = name then (name, value) :: rest else field :: setField name value rest

@[simp] theorem setField_nil (name : String) (value : Value) :
    setField name value [] = [(name, value)] := rfl

@[simp] theorem setField_known {name : String} {field : String × Value} (value : Value)
    (same : field.1 = name) (rest : List (String × Value)) :
    setField name value (field :: rest) = (name, value) :: rest := if_pos same

@[simp] theorem setField_other {name : String} {field : String × Value} (value : Value)
    (other : field.1 ≠ name) (rest : List (String × Value)) :
    setField name value (field :: rest) = field :: setField name value rest := if_neg other

namespace Document

def empty : Document := ⟨[]⟩

instance : Inhabited Document := ⟨empty⟩

def toValue (d : Document) : Value := .document d.fields

def get? (d : Document) (name : String) : Option Value :=
  (d.fields.find? fun field => field.1 == name).map Prod.snd

def contains (d : Document) (name : String) : Bool := d.fields.any fun field => field.1 == name

/-- The value set before comes back beside the new document. -/
def insert (d : Document) (name : String) (value : Value) : Document × Option Value :=
  (⟨setField name value d.fields⟩, d.get? name)

def set (d : Document) (name : String) (value : Value) : Document :=
  ⟨setField name value d.fields⟩

def remove (d : Document) (name : String) : Document × Option Value :=
  match d.fields.findIdx? fun field => field.1 == name with
  | none => (d, none)
  | some position => (⟨d.fields.eraseIdx position⟩, d.fields[position]?.map Prod.snd)

/-- Sets the fields one after the other, so a repeated name keeps its first place and its last
    value. -/
def ofFields (fields : List (String × Value)) : Document :=
  fields.foldl (fun d field => d.set field.1 field.2) empty

def keys (d : Document) : List String := d.fields.map Prod.fst

def size (d : Document) : Nat := d.fields.length

def isEmpty (d : Document) : Bool := d.fields.isEmpty

/-- A field that is absent or null counts as not given. -/
def getOptional? (d : Document) (name : String) : Option Value :=
  (d.get? name).filter fun value => !value.isNull

def restrict (d : Document) (names : List String) : Document :=
  ofFields (d.fields.filter fun field => names.contains field.1)

end Document

mutual

/-- Each name once, here and in every document below. -/
def Value.DistinctNames : Value → Prop
  | .array items => ItemsDistinctNames items
  | .document fields => (fields.map Prod.fst).Nodup ∧ FieldsDistinctNames fields
  | _ => True

def ItemsDistinctNames : List Value → Prop
  | [] => True
  | item :: rest => item.DistinctNames ∧ ItemsDistinctNames rest

def FieldsDistinctNames : List (String × Value) → Prop
  | [] => True
  | (_, value) :: rest => value.DistinctNames ∧ FieldsDistinctNames rest

end

def Document.DistinctNames (d : Document) : Prop := d.toValue.DistinctNames

end EntityCatalog
