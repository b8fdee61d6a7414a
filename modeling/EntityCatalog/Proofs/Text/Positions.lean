import EntityCatalog.Proofs.Text.Ascii

/- Positions at which characters begin. A position is known by the characters in front of it, whose
   bytes it counts, and by those behind it; passing characters of ASCII leads from one such position
   to another, and no byte of any other character is in a class of ASCII. -/
namespace EntityCatalog
open Timestamp (isAscii)

/-- The text goes on with these characters behind the bytes counted. -/
def StandsAt (text : String) (position : Nat) (behind : List Char) : Prop :=
  ∃ front, text.toList = front ++ behind ∧ utf8Length front = position

/-- The position is a boundary, and the text that begins there begins with the part. -/
def ReadsAt (text : String) (position : Nat) (part : List Char) : Prop :=
  isBoundary (utf8 text) position = true ∧ ∃ behind, StandsAt text position (part ++ behind)

def AsciiClass (p : Char → Bool) : Prop := ∀ c, p c = true → isAscii c = true

theorem utf8_append_ofList (left right : List Char) :
    utf8 (String.ofList (left ++ right)) =
      utf8 (String.ofList left) ++ utf8 (String.ofList right) := by
  simp only [utf8_ofList, List.flatMap_append]

theorem utf8_cons (c : Char) (rest : List Char) :
    utf8 (String.ofList (c :: rest)) = String.utf8EncodeChar c ++ utf8 (String.ofList rest) := by
  simp only [utf8_ofList, List.flatMap_cons]

theorem utf8_cons_ascii {c : Char} (ascii : isAscii c = true) (rest : List Char) :
    utf8 (String.ofList (c :: rest)) = c.toUInt8 :: utf8 (String.ofList rest) := by
  rw [utf8_cons, utf8EncodeChar_ascii ascii, List.singleton_append]

theorem utf8Length_eq (chars : List Char) :
    utf8Length chars = (utf8 (String.ofList chars)).length := rfl

theorem utf8Length_append (left right : List Char) :
    utf8Length (left ++ right) = utf8Length left + utf8Length right := by
  simp only [utf8Length_eq, utf8_append_ofList, List.length_append]

theorem utf8Length_ascii {chars : List Char} (ascii : chars.all isAscii = true) :
    utf8Length chars = chars.length := by
  rw [utf8Length_eq, utf8_ascii ascii, List.length_map]

/-! ### What the first byte of a character tells of it -/

structure Leads (byte : UInt8) (c : Char) : Prop where
  begins : byte < 128 ∨ 192 ≤ byte
  eq_iff : ∀ {d}, isAscii d = true → (byte = d.toUInt8 ↔ c = d)
  byteIn_eq : ∀ {p}, AsciiClass p → byteIn p byte = p c

theorem toUInt8_lt {c : Char} (ascii : isAscii c = true) : c.toUInt8 < 128 := by
  rw [UInt8.lt_iff_toNat_lt, toUInt8_toNat ascii]
  exact isAscii_iff.mp ascii

theorem ofUInt8_toUInt8 {c : Char} (ascii : isAscii c = true) : Char.ofUInt8 c.toUInt8 = c := by
  apply Char.toNat_inj.mp
  change c.toUInt8.toNat = c.toNat
  exact toUInt8_toNat ascii

theorem leads_ascii {c : Char} (ascii : isAscii c = true) : Leads c.toUInt8 c where
  begins := .inl (toUInt8_lt ascii)
  eq_iff other := toUInt8_inj ascii other
  byteIn_eq _ := by rw [byteIn, decide_eq_true (toUInt8_lt ascii), Bool.true_and,
    ofUInt8_toUInt8 ascii]

theorem leads_marked {c : Char} (other : isAscii c = false) {n : Nat} (marked : 192 ≤ n)
    (small : n < 256) : Leads (UInt8.ofNat n) c := by
  have value : (UInt8.ofNat n).toNat = n := by rw [UInt8.toNat_ofNat', Nat.mod_eq_of_lt small]
  have large : ¬ UInt8.ofNat n < 128 := by
    rw [UInt8.lt_iff_toNat_lt, value]
    exact Nat.not_lt.mpr (Nat.le_trans (by decide) marked)
  refine ⟨.inr ?_, fun {d} ascii => ⟨fun same => ?_, fun same => ?_⟩, fun {p} ascii => ?_⟩
  · rw [UInt8.le_iff_toNat_le, value]
    exact marked
  · exact absurd (same ▸ toUInt8_lt ascii) large
  · rw [same, ascii] at other
    cases other
  · have outside : p c = false := Bool.eq_false_iff.mpr fun inside => by
      rw [ascii c inside] at other
      cases other
    rw [byteIn, decide_eq_false large, Bool.false_and, outside]

theorem exists_leads (c : Char) :
    ∃ byte others, String.utf8EncodeChar c = byte :: others ∧ Leads byte c := by
  by_cases ascii : isAscii c = true
  · exact ⟨_, [], utf8EncodeChar_ascii ascii, leads_ascii ascii⟩
  · have large : ¬ c.val.toNat ≤ 127 := fun small =>
      ascii (isAscii_iff.mpr (Nat.lt_succ_of_le small))
    have other := Bool.not_eq_true _ ▸ ascii
    rw [String.utf8EncodeChar]
    simp only [if_neg large]
    split
    · exact ⟨_, _, rfl, leads_marked other (by omega) (by omega)⟩
    · split <;> exact ⟨_, _, rfl, leads_marked other (by omega) (by omega)⟩

theorem single_byte {c : Char} (ascii : isAscii c = true) {byte : UInt8} {others : Bytes}
    (same : String.utf8EncodeChar c = byte :: others) : byte = c.toUInt8 ∧ others = [] := by
  rw [utf8EncodeChar_ascii ascii] at same
  exact ⟨(List.cons.inj same).1.symm, (List.cons.inj same).2.symm⟩

theorem takeWhile_byteIn {p : Char → Bool} (ascii : AsciiClass p) (chars : List Char) :
    (utf8 (String.ofList chars)).takeWhile (byteIn p) =
      (chars.takeWhile p).map Char.toUInt8 := by
  -- The classes that a scan passes hold of the same number of characters and of bytes.
  induction chars with
  | nil => rfl
  | cons c rest ih =>
    rw [List.takeWhile_cons]
    by_cases inside : p c = true
    · rw [utf8_cons_ascii (ascii c inside), List.takeWhile_cons,
        (leads_ascii (ascii c inside)).byteIn_eq ascii, if_pos inside, if_pos inside, ih,
        List.map_cons]
    · obtain ⟨byte, others, same, leads⟩ := exists_leads c
      rw [utf8_cons, same, List.cons_append, List.takeWhile_cons, leads.byteIn_eq ascii,
        if_neg inside, if_neg inside, List.map_nil]

theorem all_byteIn {p : Char → Bool} (ascii : AsciiClass p) (chars : List Char) :
    (utf8 (String.ofList chars)).all (byteIn p) = chars.all p := by
  rw [utf8_ofList, List.all_flatMap]
  congr 1
  funext c
  by_cases inside : p c = true
  · rw [utf8EncodeChar_ascii (ascii c inside), List.all_cons,
      (leads_ascii (ascii c inside)).byteIn_eq ascii, List.all_nil, Bool.and_true]
  · obtain ⟨byte, others, same, leads⟩ := exists_leads c
    rw [same, List.all_cons, leads.byteIn_eq ascii, Bool.eq_false_iff.mpr inside, Bool.false_and]

/-! ### Going on from a position -/

theorem standsAt_start (text : String) : StandsAt text 0 text.toList := ⟨[], rfl, rfl⟩

namespace StandsAt
variable {text : String} {position : Nat} {part behind : List Char} {c : Char}

theorem past (stands : StandsAt text position (part ++ behind)) :
    StandsAt text (position + utf8Length part) behind := by
  obtain ⟨front, whole, length⟩ := stands
  refine ⟨front ++ part, ?_, ?_⟩
  · rw [whole, List.append_assoc]
  · rw [utf8Length_append, length]

theorem past_ascii (stands : StandsAt text position (c :: behind)) (ascii : isAscii c = true) :
    StandsAt text (position + 1) behind := by
  have onward := @past text position [c] behind stands
  rwa [utf8Length_ascii (by simp [ascii])] at onward

theorem bytes_eq (stands : StandsAt text position behind) :
    ∃ front, utf8 text = front ++ utf8 (String.ofList behind) ∧ front.length = position := by
  obtain ⟨front, whole, length⟩ := stands
  refine ⟨utf8 (String.ofList front), ?_, length⟩
  rw [← utf8_append_ofList, ← whole, String.ofList_toList]

theorem drop_bytes (stands : StandsAt text position behind) :
    (utf8 text).drop position = utf8 (String.ofList behind) := by
  obtain ⟨front, whole, length⟩ := stands.bytes_eq
  rw [whole, ← length, List.drop_left]

theorem length_eq (stands : StandsAt text position behind) :
    (utf8 text).length = position + utf8Length behind := by
  obtain ⟨front, whole, length⟩ := stands.bytes_eq
  rw [whole, List.length_append, length, utf8Length_eq]

theorem byte_eq (stands : StandsAt text position behind) :
    (utf8 text)[position]? = (utf8 (String.ofList behind)).head? := by
  rw [← stands.drop_bytes, List.head?_drop]

theorem exists_byte (stands : StandsAt text position (c :: behind)) :
    ∃ byte, (utf8 text)[position]? = some byte ∧ Leads byte c := by
  obtain ⟨byte, others, same, leads⟩ := exists_leads c
  refine ⟨byte, ?_, leads⟩
  rw [stands.byte_eq, utf8_cons, same]
  rfl

theorem no_byte (stands : StandsAt text position []) : (utf8 text)[position]? = none := by
  rw [stands.byte_eq]
  rfl

theorem isBoundary (stands : StandsAt text position behind) :
    isBoundary (utf8 text) position = true := by
  cases behind with
  | nil =>
    have whole : (utf8 text).length = position := stands.length_eq
    rw [EntityCatalog.isBoundary, stands.no_byte]
    exact decide_eq_true whole.symm
  | cons c rest =>
    obtain ⟨byte, found, leads⟩ := stands.exists_byte
    rw [EntityCatalog.isBoundary, found]
    simpa using leads.begins

theorem readsAt (stands : StandsAt text position (part ++ behind)) : ReadsAt text position part :=
  ⟨stands.isBoundary, behind, stands⟩

theorem readsAt_first (stands : StandsAt text position (c :: behind)) : ReadsAt text position [c] :=
  ⟨stands.isBoundary, behind, stands⟩

theorem sliceText?_eq (stands : StandsAt text position (part ++ behind)) :
    sliceText? text position (position + utf8Length part) = some (String.ofList part) := by
  have cut : ((utf8 text).take (position + utf8Length part)).drop position =
      utf8 (String.ofList part) := by
    rw [List.drop_take, Nat.add_sub_cancel_left, stands.drop_bytes, utf8_append_ofList,
      utf8Length_eq, List.take_left]
  rw [sliceText?, slice?, if_pos ⟨Nat.le_add_right _ _, stands.isBoundary, stands.past.isBoundary⟩,
    cut, Option.bind_some, ofUtf8?_utf8]

theorem sliceText?_rest (stands : StandsAt text position behind) :
    sliceText? text position (utf8 text).length = some (String.ofList behind) := by
  have whole : StandsAt text position (behind ++ []) := by rwa [List.append_nil]
  rw [stands.length_eq, whole.sliceText?_eq]

theorem any_byteIn {p : Char → Bool} (ascii : AsciiClass p)
    (stands : StandsAt text position behind) :
    (utf8 text)[position]?.any (byteIn p) = behind.head?.any p := by
  cases behind with
  | nil =>
    rw [stands.no_byte]
    rfl
  | cons c rest =>
    obtain ⟨byte, found, leads⟩ := stands.exists_byte
    rw [found]
    exact leads.byteIn_eq ascii

theorem byte_eq_iff {d : Char} (ascii : isAscii d = true)
    (stands : StandsAt text position behind) :
    (utf8 text)[position]? = some d.toUInt8 ↔ behind.head? = some d := by
  cases behind with
  | nil => simp [stands.no_byte]
  | cons c rest =>
    obtain ⟨byte, found, leads⟩ := stands.exists_byte
    rw [found, Option.some_inj, List.head?_cons, Option.some_inj]
    exact leads.eq_iff ascii

theorem passWhile_eq {p : Char → Bool} (ascii : AsciiClass p)
    (stands : StandsAt text position behind) :
    passWhile p (utf8 text) position = position + utf8Length (behind.takeWhile p) := by
  have all_ascii : (behind.takeWhile p).all isAscii = true := List.all_eq_true.mpr fun c member =>
    ascii c (List.all_eq_true.mp List.all_takeWhile c member)
  rw [passWhile, stands.drop_bytes, takeWhile_byteIn ascii, List.length_map,
    utf8Length_ascii all_ascii]

end StandsAt
end EntityCatalog
