import EntityCatalog.Decimal.Text
import EntityCatalog.Proofs.Results
import EntityCatalog.Proofs.Text.Positions

/- Reading bytes gives what reading characters gives, whatever characters the text has, and a fault
   names a character where it begins. Up to any position at which the reader stops or cuts it has
   passed characters of ASCII only. -/
namespace EntityCatalog
open Timestamp (isAscii)

theorem ascii_isDigit : AsciiClass Char.isDigit := by
  intro c digit
  have most : '9'.toNat < 128 := by decide
  exact isAscii_iff.mpr (Nat.lt_of_le_of_lt (Char.isDigit_iff_toNat.mp digit).2 most)

namespace Decimal
open Guarded

def Fault.TrueIn (text : String) : Fault → Prop
  | .invalidCharacter position found => ReadsAt text position [found]
  | .empty => True
  | .overflow => True

variable {text : String} {position : Nat} {behind : List Char}

theorem strayAt_eq {α : Type} {c : Char} {rest : List Char}
    (stands : StandsAt text position (c :: rest)) :
    (strayAt text position : Guarded Fault α) = refused (.invalidCharacter position c) := by
  rw [strayAt, stands.sliceText?_rest, within_some_bind, String.toList_ofList]
  rfl

theorem faultFrom_eq {α : Type} (stands : StandsAt text position behind) :
    (faultFrom text position : Guarded Fault α) = refused (faultAt position behind) := by
  have inside : min position (utf8 text).length = position := by
    rw [stands.length_eq]
    omega
  rw [faultFrom, inside, stands.sliceText?_rest, within_some_bind, String.toList_ofList]

theorem faultAt_true (stands : StandsAt text position behind) :
    (faultAt position behind).TrueIn text := by
  cases behind with
  | nil => trivial
  | cons c rest => exact stands.readsAt_first

/-- Where the reader of digits stops the text goes on with a character of ASCII, if it goes on, and
    where the reader fails the text holds what it names. -/
def Gathered (text : String) : Except Fault (WordScan × Nat × List Char) → Prop
  | .ok (_, stop, rest) => StandsAt text stop rest ∧ ∀ c ∈ rest.head?, isAscii c = true
  | .error fault => fault.TrueIn text

theorem gatherDigits_gathered (words : WordScan) (stands : StandsAt text position behind) :
    Gathered text (gatherDigits words position behind) := by
  fun_induction gatherDigits words position behind with
  | case1 words position => exact ⟨stands, by simp⟩
  | case2 words position rest ih => exact ih (stands.past_ascii (by decide))
  | case3 words position c rest some_digit digit next grown ih =>
    exact ih (stands.past_ascii (ascii_isDigit c digit))
  | case4 => trivial
  | case5 words position c rest some_digit no_digit point ih =>
    exact ih (stands.past_ascii (by rw [point.1]; decide))
  | case6 words position c rest some_digit no_digit no_point marker =>
    refine ⟨stands, fun d member => ?_⟩
    cases member
    rcases marker.1 with rfl | rfl <;> decide
  | case7 words position c rest => exact stands.readsAt_first

theorem gatherBytes_cons {c : Char} {byte : UInt8} (leads : Leads byte c) (words : WordScan)
    (others : Bytes) :
    gatherBytes text words position (byte :: others) =
      if c = '0' then gatherBytes text words.zeroDigit (position + 1) others
      else if c.isDigit then
        match words.nonzeroDigit? (byte.toNat - '0'.toNat) with
        | some next => gatherBytes text next (position + 1) others
        | none => refused .overflow
      else if c = '.' ∧ words.pointSeen = false then
        gatherBytes text { words with pointSeen := true } (position + 1) others
      else if (c = 'e' ∨ c = 'E') ∧ 0 < words.digitCount then .ok (words, position)
      else strayAt text position := by
  have zero := leads.eq_iff (show isAscii '0' = true by decide)
  have digit : byteIn Char.isDigit byte = true ↔ c.isDigit = true := by
    rw [leads.byteIn_eq ascii_isDigit]
  have point := leads.eq_iff (show isAscii '.' = true by decide)
  have small := leads.eq_iff (show isAscii 'e' = true by decide)
  have capital := leads.eq_iff (show isAscii 'E' = true by decide)
  refine ite_congr (propext zero) (fun _ => rfl) fun _ => ?_
  refine ite_congr (propext digit) (fun _ => rfl) fun _ => ?_
  refine ite_congr (propext (and_congr_left fun _ => point)) (fun _ => rfl) fun _ => ?_
  exact ite_congr (propext (and_congr_left fun _ => or_congr small capital)) (fun _ => rfl)
    fun _ => rfl

theorem gatherBytes_eq (words : WordScan) (stands : StandsAt text position behind) :
    gatherBytes text words position (utf8 (String.ofList behind)) =
      ((gatherDigits words position behind).map fun found => (found.1, found.2.1)).mapError
        some := by
  induction behind generalizing words position with
  | nil => rfl
  | cons c rest ih =>
    obtain ⟨byte, others, same, leads⟩ := exists_leads c
    -- What is passed is one byte long; a stray may be longer, and nothing is read behind it.
    have onward : isAscii c = true → ∀ words,
        gatherBytes text words (position + 1) (others ++ utf8 (String.ofList rest)) =
          ((gatherDigits words (position + 1) rest).map fun found => (found.1, found.2.1)).mapError
            some := fun ascii words => by
      rw [(single_byte ascii same).2, List.nil_append]
      exact ih words (stands.past_ascii ascii)
    rw [utf8_cons, same, List.cons_append, gatherBytes_cons leads, strayAt_eq stands, gatherDigits]
    split
    · rename_i zero
      exact onward (by rw [zero]; decide) _
    · split
      · rename_i digit
        have ascii := ascii_isDigit c digit
        rw [(single_byte ascii same).1, toUInt8_toNat ascii]
        cases words.nonzeroDigit? (c.toNat - '0'.toNat) with
        | none => rfl
        | some next => exact onward ascii next
      · split
        · rename_i point
          exact onward (by rw [point.1]; decide) _
        · split <;> rfl

theorem exponentPart_eq (exponent : Int) (stands : StandsAt text position behind)
    (marked : ∀ c ∈ behind.head?, isAscii c = true) :
    exponentPart text position exponent = (addExponent position exponent behind).mapError some := by
  cases behind with
  | nil =>
    have whole : (utf8 text).length = position := stands.length_eq
    rw [exponentPart, if_pos (Nat.le_of_eq whole)]
    rfl
  | cons marker rest =>
    have inside : ¬ (utf8 text).length ≤ position := by
      rw [stands.length_eq, utf8Length_eq, utf8_cons_ascii (marked marker rfl), List.length_cons]
      omega
    rw [exponentPart, if_neg inside, (stands.past_ascii (marked marker rfl)).sliceText?_rest,
      within_some_bind, String.toList_ofList, addExponent]
    cases splitSign rest with
    | mk negative digits =>
      simp only [all_byteIn ascii_isDigit, faultFrom_eq stands]
      split
      · rfl
      · cases word? longBound (signed negative (Nat.ofDigitChars 10 digits 0)) with
        | none => rfl
        | some explicit =>
          simp only [orRefused_some_bind]
          cases word? longBound (exponent + explicit) <;> rfl

theorem splitSign_stands (text : String) :
    StandsAt text (text.toList.length - (splitSign text.toList).2.length)
      (splitSign text.toList).2 := by
  have stands := standsAt_start text
  generalize text.toList = chars at stands
  unfold splitSign
  split
  · rename_i rest
    rw [List.length_cons, Nat.add_sub_cancel_left]
    exact stands.past_ascii (by decide)
  · rename_i rest
    rw [List.length_cons, Nat.add_sub_cancel_left]
    exact stands.past_ascii (by decide)
  · rw [Nat.sub_self]
    exact stands

theorem signByte_eq {first : UInt8} {c : Char} (leads : Leads first c) (rest : List Char) :
    signByte first =
      ((splitSign (c :: rest)).1, (c :: rest).length - (splitSign (c :: rest)).2.length) := by
  have minus := leads.eq_iff (show isAscii '-' = true by decide)
  have plus := leads.eq_iff (show isAscii '+' = true by decide)
  by_cases is_minus : c = '-'
  · rw [signByte, if_pos (minus.mpr is_minus), is_minus]
    simp [splitSign]
  by_cases is_plus : c = '+'
  · rw [signByte, if_neg (mt minus.mp is_minus), if_pos (plus.mpr is_plus), is_plus]
    simp [splitSign]
  rw [signByte, if_neg (mt minus.mp is_minus), if_neg (mt plus.mp is_plus)]
  simp [splitSign, is_minus, is_plus]

theorem parseFrom_eq (negative : Bool) (stands : StandsAt text position behind) :
    parseFrom text negative position = (parseUnsigned negative position behind).mapError some := by
  have gathered := gatherDigits_gathered .start stands
  rw [parseFrom, stands.drop_bytes, gatherBytes_eq .start stands, parseUnsigned]
  cases read : gatherDigits .start position behind with
  | error fault => rfl
  | ok found =>
    obtain ⟨words, stop, rest⟩ := found
    rw [read] at gathered
    obtain ⟨stopped, marked⟩ := gathered
    simp only [ok_map, mapError_ok, ok_bind, faultFrom_eq stopped,
      exponentPart_eq _ stopped marked]
    split
    · rfl
    · cases addExponent stop (words.exponent + words.pendingZeros) rest with
      | error fault => rfl
      | ok total =>
        simp only [mapError_ok, ok_bind]
        cases word? exponentBound total with
        | none => rfl
        | some exponent =>
          simp only [orRefused_some_bind]
          cases ofParts? (if negative then -words.significand else words.significand) exponent <;>
            rfl

/-- No text is cut inside a character, and no fault is another one. -/
theorem parseBytewise_eq (text : String) :
    parseBytewise text = (parse text).mapError some := by
  have stands := splitSign_stands text
  have whole := (standsAt_start text).drop_bytes
  rw [List.drop_zero] at whole
  rw [parseBytewise, parse]
  cases chars : text.toList with
  | nil =>
    rw [whole, chars]
    rfl
  | cons c rest =>
    obtain ⟨first, others, same, leads⟩ := exists_leads c
    rw [chars] at stands
    rw [whole, chars, utf8_cons, same, List.cons_append, if_neg (List.cons_ne_nil _ _)]
    simp only [signByte_eq leads rest]
    exact parseFrom_eq _ stands

theorem addExponent_fault_true {exponent : Int} {fault : Fault}
    (stands : StandsAt text position behind)
    (failed : addExponent position exponent behind = .error fault) : fault.TrueIn text := by
  unfold addExponent at failed
  split at failed
  · cases failed
  · simp only at failed
    split at failed
    · cases failed
      exact faultAt_true stands
    · split at failed
      · cases failed
        trivial
      · split at failed
        · cases failed
          trivial
        · cases failed

theorem parseUnsigned_fault_true {negative : Bool} {fault : Fault}
    (stands : StandsAt text position behind)
    (failed : parseUnsigned negative position behind = .error fault) : fault.TrueIn text := by
  have gathered := gatherDigits_gathered .start stands
  unfold parseUnsigned at failed
  split at failed
  · rename_i first stopped
    rw [stopped] at gathered
    cases failed
    exact gathered
  · rename_i words stop rest read
    rw [read] at gathered
    split at failed
    · cases failed
      exact faultAt_true gathered.1
    · split at failed
      · rename_i first stopped
        cases failed
        exact addExponent_fault_true gathered.1 stopped
      · split at failed
        · cases failed
          trivial
        · split at failed
          · cases failed
          · cases failed
            trivial

theorem parse_fault_true {fault : Fault} (failed : parse text = .error fault) :
    fault.TrueIn text := by
  unfold parse at failed
  split at failed
  · cases failed
    trivial
  · exact parseUnsigned_fault_true (splitSign_stands text) failed

end Decimal
end EntityCatalog
