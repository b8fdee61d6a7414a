import EntityCatalog.Guarded
import EntityCatalog.Timestamp

/- Texts of ASCII characters. Each character is one byte, so positions of bytes are positions of
   characters, and every position is between two of them. -/
namespace EntityCatalog
open Timestamp (isAscii)

theorem isAscii_iff {c : Char} : isAscii c = true ↔ c.toNat < 128 := by
  simp [isAscii]

theorem toUInt8_toNat {c : Char} (ascii : isAscii c = true) : c.toUInt8.toNat = c.toNat := by
  change c.toNat % 256 = c.toNat
  exact Nat.mod_eq_of_lt (Nat.lt_trans (isAscii_iff.mp ascii) (by decide))

theorem toUInt8_inj {c d : Char} (ascii : isAscii c = true) (other : isAscii d = true) :
    c.toUInt8 = d.toUInt8 ↔ c = d := by
  constructor
  · intro same
    apply Char.toNat_inj.mp
    rw [← toUInt8_toNat ascii, ← toUInt8_toNat other, same]
  · exact congrArg Char.toUInt8

theorem utf8_ofList (chars : List Char) :
    utf8 (String.ofList chars) = chars.flatMap String.utf8EncodeChar := by
  simp [utf8, List.utf8Encode]

theorem utf8EncodeChar_ascii {c : Char} (ascii : isAscii c = true) :
    String.utf8EncodeChar c = [c.toUInt8] := by
  apply String.utf8EncodeChar_eq_singleton
  rw [Char.utf8Size_eq_one_iff, UInt32.le_iff_toNat_le]
  exact Nat.le_of_lt_succ (isAscii_iff.mp ascii)

theorem utf8_ascii {chars : List Char} (ascii : chars.all isAscii = true) :
    utf8 (String.ofList chars) = chars.map Char.toUInt8 := by
  rw [utf8_ofList]
  induction chars with
  | nil => rfl
  | cons c rest ih =>
    rw [List.all_cons, Bool.and_eq_true] at ascii
    rw [List.flatMap_cons, utf8EncodeChar_ascii ascii.1, ih ascii.2, List.map_cons]
    rfl

theorem all_of_marked {n : Nat} (marked : 128 ≤ n) (small : n < 256) (rest : Bytes) :
    (UInt8.ofNat n :: rest).all (fun byte => decide (byte < 128)) = false := by
  have first : ¬ UInt8.ofNat n < 128 := by
    rw [UInt8.lt_iff_toNat_lt, UInt8.toNat_ofNat', Nat.mod_eq_of_lt small]
    exact Nat.not_lt.mpr marked
  rw [List.all_cons, decide_eq_false first, Bool.false_and]

theorem all_utf8EncodeChar (c : Char) :
    (String.utf8EncodeChar c).all (fun byte => decide (byte < 128)) = isAscii c := by
  by_cases ascii : isAscii c = true
  · have small : c.toUInt8 < 128 := by
      rw [UInt8.lt_iff_toNat_lt, toUInt8_toNat ascii]
      exact isAscii_iff.mp ascii
    rw [utf8EncodeChar_ascii ascii, ascii]
    simpa using small
  · have large : ¬ c.val.toNat ≤ 127 := fun small =>
      ascii (isAscii_iff.mpr (Nat.lt_succ_of_le small))
    rw [Bool.not_eq_true] at ascii
    rw [ascii, String.utf8EncodeChar]
    simp only [if_neg large]
    split
    · exact all_of_marked (by omega) (by omega) _
    · split <;> exact all_of_marked (by omega) (by omega) _

theorem all_utf8 (text : String) :
    (utf8 text).all (fun byte => decide (byte < 128)) = text.toList.all isAscii := by
  have whole := utf8_ofList text.toList
  rw [String.ofList_toList] at whole
  rw [whole, List.all_flatMap]
  simp only [all_utf8EncodeChar]

variable {bytes : Bytes}

theorem isBoundary_ascii (ascii : bytes.all (fun byte => decide (byte < 128)) = true)
    {position : Nat} (inside : position ≤ bytes.length) : isBoundary bytes position = true := by
  unfold isBoundary
  split
  · rename_i byte found
    have small := List.all_eq_true.mp ascii byte (List.mem_of_getElem? found)
    simp only [decide_eq_true_eq] at small
    simp [small]
  · rename_i none_there
    rw [List.getElem?_eq_none_iff] at none_there
    simpa using Nat.le_antisymm inside none_there

theorem slice?_ascii (ascii : bytes.all (fun byte => decide (byte < 128)) = true)
    {start stop : Nat} (ordered : start ≤ stop) (inside : stop ≤ bytes.length) :
    slice? bytes start stop = some ((bytes.drop start).take (stop - start)) := by
  rw [slice?, if_pos ⟨ordered, isBoundary_ascii ascii (Nat.le_trans ordered inside),
    isBoundary_ascii ascii inside⟩, List.drop_take]

theorem utf8_eq_map {text : String} (ascii : text.toList.all isAscii = true) :
    utf8 text = text.toList.map Char.toUInt8 := by
  have whole := utf8_ascii ascii
  rwa [String.ofList_toList] at whole

variable {chars : List Char}

theorem all_bytes (ascii : chars.all isAscii = true) :
    (chars.map Char.toUInt8).all (fun byte => decide (byte < 128)) = true := by
  have whole := all_utf8 (String.ofList chars)
  rw [utf8_ascii ascii, String.toList_ofList, ascii] at whole
  exact whole

theorem slice?_map (ascii : chars.all isAscii = true) {start stop : Nat} (ordered : start ≤ stop)
    (inside : stop ≤ chars.length) :
    slice? (chars.map Char.toUInt8) start stop =
      some (((chars.drop start).take (stop - start)).map Char.toUInt8) := by
  rw [slice?_ascii (all_bytes ascii) ordered (by rw [List.length_map]; exact inside),
    ← List.map_drop, ← List.map_take]

theorem all_take_drop (ascii : chars.all isAscii = true) (start width : Nat) :
    ((chars.drop start).take width).all isAscii = true :=
  List.all_eq_true.mpr fun c member =>
    List.all_eq_true.mp ascii c (List.mem_of_mem_drop (List.mem_of_mem_take member))

theorem map_toUInt8_inj {chars others : List Char} (ascii : chars.all isAscii = true)
    (others_ascii : others.all isAscii = true) :
    chars.map Char.toUInt8 = others.map Char.toUInt8 ↔ chars = others := by
  rw [← utf8_ascii ascii, ← utf8_ascii others_ascii, utf8_inj, String.ofList_inj]

theorem map_toUInt8_text {chars : List Char} (ascii : chars.all isAscii = true) :
    (ofUtf8? (chars.map Char.toUInt8)).getD "" = String.ofList chars := by
  rw [← utf8_ascii ascii, ofUtf8?_utf8, Option.getD_some]

end EntityCatalog
