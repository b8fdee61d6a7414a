import EntityCatalog.Wire.Encoding

/- Checking a document while it is written, and checking all of it before anything is written, give
   the same answer: the checks are made in the same order, and what has been written has no part in
   them. -/
namespace EntityCatalog
variable {α : Type}

def unlessFault (fault? : Option WriteFault) (written : α) : Except WriteFault α :=
  match fault? with
  | some fault => .error fault
  | none => .ok written

theorem checkLength_eq (part : String) (length limit : Nat) :
    checkLength part length limit = unlessFault (lengthFault? part length limit) () := by
  unfold checkLength lengthFault?
  split <;> rfl

theorem containerChecked_eq {limits : Limits} {depth : Nat} {part : String} {length limit : Nat}
    {write : Nat → Except WriteFault Output} {written : Output} (fault? : Nat → Option WriteFault)
    (inside : ∀ inner, write inner = unlessFault (fault? (limits.depth - inner)) written) :
    (descend limits depth >>= fun inner => checkLength part length limit >>= fun _ => write inner) =
      unlessFault
        (match limits.depth - depth with
        | 0 => some (.nestedTooDeep limits.depth)
        | room + 1 =>
            match lengthFault? part length limit with
            | some fault => some fault
            | none => fault? room)
        written := by
  -- The checks in front of a container. The depth so far and the room that is left make up the
  -- depth of the limits.
  cases left : limits.depth - depth with
  | zero =>
    rw [descend, if_pos (by omega)]
    rfl
  | succ room =>
    have less : limits.depth - (depth + 1) = room := by omega
    have written_inside := inside (depth + 1)
    rw [less] at written_inside
    rw [descend, if_neg (by omega), checkLength_eq]
    cases lengthFault? part length limit with
    | some fault => rfl
    | none => exact written_inside

mutual

theorem Value.writeChecked_eq (limits : Limits) (depth : Nat) (out : Output) (value : Value) :
    value.writeChecked limits depth out =
      unlessFault (value.fault? limits (limits.depth - depth)) (value.write out) := by
  cases value with
  | null => rfl
  | bool flag => rfl
  | int32 number => rfl
  | int64 number => rfl
  | string text =>
    simp only [Value.writeChecked, Value.fault?, Value.write, checkLength_eq]
    cases lengthFault? "string" text.utf8ByteSize limits.stringLength <;> rfl
  | array items =>
    simp only [Value.writeChecked, Value.fault?, Value.write]
    exact containerChecked_eq (itemsFault? limits · items) fun inner =>
      writeItemsChecked_eq limits inner _ items
  | document fields =>
    simp only [Value.writeChecked, Value.fault?, Value.write]
    exact containerChecked_eq (fieldsFault? limits · fields) fun inner =>
      writeFieldsChecked_eq limits inner _ fields

theorem writeItemsChecked_eq (limits : Limits) (depth : Nat) (out : Output) (items : List Value) :
    writeItemsChecked limits depth out items =
      unlessFault (itemsFault? limits (limits.depth - depth) items) (writeItems out items) := by
  cases items with
  | nil => rfl
  | cons item rest =>
    simp only [writeItemsChecked, itemsFault?, writeItems]
    rw [Value.writeChecked_eq limits depth out item]
    cases item.fault? limits (limits.depth - depth) with
    | some fault => rfl
    | none => exact writeItemsChecked_eq limits depth (item.write out) rest

theorem writeFieldsChecked_eq (limits : Limits) (depth : Nat) (out : Output)
    (fields : List (String × Value)) :
    writeFieldsChecked limits depth out fields =
      unlessFault (fieldsFault? limits (limits.depth - depth) fields) (writeFields out fields) := by
  cases fields with
  | nil => rfl
  | cons field rest =>
    obtain ⟨name, value⟩ := field
    simp only [writeFieldsChecked, fieldsFault?, writeFields, checkLength_eq]
    rw [Value.writeChecked_eq limits depth (out.string name) value]
    cases lengthFault? "field_name" name.utf8ByteSize limits.stringLength with
    | some fault => rfl
    | none =>
      cases value.fault? limits (limits.depth - depth) with
      | some fault => rfl
      | none => exact writeFieldsChecked_eq limits depth (value.write (out.string name)) rest

end

theorem Document.writeChecked_eq (limits : Limits) (out : Output) (d : Document) :
    d.writeChecked limits 0 out = unlessFault (d.fault? limits) (d.write out) := by
  simp only [Document.writeChecked, Document.fault?, Document.write, checkLength_eq]
  cases lengthFault? "field_count" d.fields.length maxFields with
  | some fault => rfl
  | none => exact writeFieldsChecked_eq limits 0 (out.varint d.fields.length) d.fields

theorem encodeChecked_eq_encode (limits : Limits) (d : Document) :
    encodeChecked limits d = encode limits d := by
  simp only [encodeChecked, encode, Document.writeChecked_eq, checkLength_eq, Document.bytes,
    Array.length_toList]
  cases d.fault? limits.capped with
  | some fault => rfl
  | none =>
    generalize d.write (plainMagic ++ [currentFormat]).toArray = out
    change (unlessFault (lengthFault? "document" out.size _) () >>= fun _ => _) = _
    cases lengthFault? "document" out.size limits.capped.documentSize <;> rfl

end EntityCatalog
