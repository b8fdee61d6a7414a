import EntityCatalog.Proofs.Text.Ascii
import EntityCatalog.Proofs.Timestamp.Words
import EntityCatalog.Proofs.Timestamp.Zone
import EntityCatalog.Timestamp.Reading

/- Reading bytes with all its bounds checked gives what reading characters gives. A text of ASCII has
   a byte for each character, its columns begin and end between characters, and the numbers that two
   to six digits denote leave no word. -/
namespace EntityCatalog
namespace Timestamp
open Guarded

theorem isDigitByte_toUInt8 {c : Char} (ascii : isAscii c = true) :
    isDigitByte c.toUInt8 = c.isDigit := by
  rw [Bool.eq_iff_iff, Char.isDigit_iff_toNat]
  simp only [isDigitByte, Bool.and_eq_true, decide_eq_true_eq, UInt8.le_iff_toNat_le,
    toUInt8_toNat ascii]
  rfl

section
variable {chars : List Char}

theorem all_isDigitByte (ascii : chars.all isAscii = true) :
    (chars.map Char.toUInt8).all isDigitByte = chars.all Char.isDigit := by
  induction chars with
  | nil => rfl
  | cons c rest ih =>
    rw [List.all_cons, Bool.and_eq_true] at ascii
    rw [List.map_cons, List.all_cons, List.all_cons, isDigitByte_toUInt8 ascii.1, ih ascii.2]

theorem takeWhile_isDigitByte (ascii : chars.all isAscii = true) :
    (chars.map Char.toUInt8).takeWhile isDigitByte =
      (chars.takeWhile Char.isDigit).map Char.toUInt8 := by
  induction chars with
  | nil => rfl
  | cons c rest ih =>
    rw [List.all_cons, Bool.and_eq_true] at ascii
    rw [List.map_cons, List.takeWhile_cons, List.takeWhile_cons, isDigitByte_toUInt8 ascii.1,
      ih ascii.2]
    split <;> rfl

theorem foldl_digitBytes (ascii : chars.all isAscii = true) (start : Nat) :
    (chars.map Char.toUInt8).foldl (fun n byte => 10 * n + (byte.toNat - 48)) start =
      Nat.ofDigitChars 10 chars start := by
  induction chars generalizing start with
  | nil => rfl
  | cons c rest ih =>
    rw [List.all_cons, Bool.and_eq_true] at ascii
    rw [List.map_cons, List.foldl_cons, ih ascii.2, toUInt8_toNat ascii.1, Nat.ofDigitChars_cons]
    rfl

theorem wordOf?_map (ascii : chars.all isAscii = true) (short : chars.length ≤ 6) :
    wordOf? (chars.map Char.toUInt8) = number? chars := by
  unfold wordOf? number?
  rw [all_isDigitByte ascii, foldl_digitBytes ascii]
  simp only [ne_eq, List.map_eq_nil_iff]
  split
  · rename_i digits
    have small := number_lt (List.all_eq_true.mp digits.2)
    have power : tenTo chars.length ≤ tenTo 6 := Nat.pow_le_pow_right (by decide) short
    have most : tenTo 6 = 1000000 := rfl
    exact long?_of_fits (by omega) (by omega)
  · rfl

end

section
variable {text : String} (ascii : text.toList.all isAscii = true)
include ascii

theorem column_eq {start stop : Nat} (ordered : start ≤ stop) (inside : stop ≤ text.toList.length)
    (short : stop ≤ start + 6) :
    column text start stop =
      orRefused (.malformed text) (field? text.toList start (stop - start)) := by
  have narrow : ((text.toList.drop start).take (stop - start)).length ≤ 6 := by
    rw [List.length_take]
    omega
  unfold column field?
  rw [utf8_eq_map ascii, slice?_map ascii ordered inside, within_some_bind,
    wordOf?_map (all_take_drop ascii start _) narrow]

theorem separated_eq {places : List (Nat × List Char)}
    (inside : ∀ place ∈ places, place.1 < text.toList.length)
    (marks : ∀ place ∈ places, place.2.all isAscii = true) :
    separated (utf8 text) places =
      .ok (places.all fun place => (text.toList[place.1]?).any fun c => decide (c ∈ place.2)) := by
  induction places with
  | nil => rfl
  | cons place rest ih =>
    obtain ⟨position, allowed⟩ := place
    have here : position < text.toList.length := inside (position, allowed) (by simp)
    have later := ih (fun other member => inside other (by simp [member]))
      (fun other member => marks other (by simp [member]))
    have found : text.toList[position]? = some text.toList[position] :=
      List.getElem?_eq_getElem here
    have read : (utf8 text)[position]? = some text.toList[position].toUInt8 := by
      rw [utf8_eq_map ascii, List.getElem?_map, found, Option.map_some]
    have same : text.toList[position].toUInt8 ∈ allowed.map Char.toUInt8 ↔
        text.toList[position] ∈ allowed := by
      rw [List.mem_map]
      constructor
      · rintro ⟨c, member, equal⟩
        have mark := List.all_eq_true.mp (marks (position, allowed) (by simp)) c member
        have own := List.all_eq_true.mp ascii _ (List.getElem_mem here)
        rwa [(toUInt8_inj mark own).mp equal] at member
      · intro member
        exact ⟨_, member, rfl⟩
    rw [separated, read, within_some_bind, List.all_cons, found, Option.any_some]
    simp only [same]
    split
    · rename_i member
      rw [later, decide_eq_true member, Bool.true_and]
    · rename_i other
      rw [decide_eq_false other, Bool.false_and]

end

theorem separators_iff (chars : List Char) :
    (separators.all fun place => (chars[place.1]?).any fun c => decide (c ∈ place.2)) = true ↔
      chars[4]? = some '-' ∧ chars[7]? = some '-' ∧
      (chars[10]? = some 'T' ∨ chars[10]? = some 't' ∨ chars[10]? = some ' ') ∧
      chars[13]? = some ':' ∧ chars[16]? = some ':' := by
  simp only [separators, List.all_cons, List.all_nil, Bool.and_true, Bool.and_eq_true,
    Option.any_eq_true, decide_eq_true_eq, List.mem_cons, List.not_mem_nil, or_false, and_or_left,
    exists_or, exists_eq_right]

theorem positions_inside {count : Nat} (long : 19 ≤ count) :
    ∀ place ∈ separators, place.1 < count := by
  have inside : ∀ place ∈ separators, place.1 < 19 := by decide
  exact fun place member => Nat.lt_of_lt_of_le (inside place member) long

theorem fixedPart_eq (text : String) :
    fixedPart text = orRefused (.malformed text) (fixed? text.toList) := by
  -- All that is refused here is refused as a text of another form.
  have width : text.toList.all isAscii = true →
      (utf8 text).length = text.toList.length := fun ascii => by
    rw [utf8_eq_map ascii, List.length_map]
  unfold fixedPart
  simp only [all_utf8]
  -- Bytes and characters have the same positions only in ASCII text.
  by_cases plain : text.toList.all isAscii = true ∧ 19 ≤ text.toList.length
  · obtain ⟨ascii, long⟩ := plain
    have length := width ascii
    have allowed : ¬ (text.toList.all isAscii = false ∨ (utf8 text).length < 19) := by
      rw [ascii, length]
      simpa using long
    rw [if_neg allowed, separated_eq ascii (positions_inside long) (by decide)]
    have marks := separators_iff text.toList
    cases held : separators.all fun place =>
        (text.toList[place.1]?).any fun c => decide (c ∈ place.2) with
    | false =>
      rw [held] at marks
      have other := fun all => Bool.false_ne_true (marks.mpr all)
      rw [fixed?, if_neg fun all => other all.2.2]
      rfl
    | true =>
      have separated := marks.mp held
      rw [fixed?, if_pos ⟨ascii, long, separated⟩]
      change (column text 0 4 >>= _) = _
      simp (disch := omega) only [column_eq ascii, Option.bind_eq_bind, orRefused_bind,
        Nat.reduceSub]
      rfl
  · have refusing : text.toList.all isAscii = false ∨ (utf8 text).length < 19 := by
      cases ascii : text.toList.all isAscii with
      | false => exact Or.inl rfl
      | true =>
        rw [width ascii]
        exact Or.inr (Nat.lt_of_not_le fun long => plain ⟨ascii, long⟩)
    rw [if_pos refusing, fixed?, if_neg fun all => plain ⟨all.1, all.2.1⟩]
    rfl

theorem millionths_eq (text : String) {digits : List Char} (row : SomeDigits digits) :
    millionths text ((digits.take 6).map Char.toUInt8) = .ok (fractionMicros digits : Nat) := by
  -- Six digits and the power of ten that fills them up are words, and so is their product.
  have six := row.take (show 0 < 6 by decide)
  have short : (digits.take 6).length ≤ 6 := List.length_take_le 6 digits
  have places : fewer? 6 (digits.take 6).length = some (6 - (digits.take 6).length) := if_pos short
  have power : tenTo (6 - (digits.take 6).length) ≤ tenTo 6 :=
    Nat.pow_le_pow_right (by decide) (Nat.sub_le 6 _)
  have most : tenTo 6 = 1000000 := rfl
  have small := fractionMicros_lt row.2
  have product : (number (digits.take 6) : Int) * tenTo (6 - (digits.take 6).length) =
      ((fractionMicros digits : Nat) : Int) := by
    rw [fractionMicros_eq row.2, Int.natCast_mul]
  unfold millionths
  rw [wordOf?_map (all_ascii_of_digits six.2) short, six.number?_eq, orRefused_some_bind,
    List.length_map, places, within_some_bind, long?_of_fits (by omega) (by omega),
    within_some_bind, product, long?_of_fits (by omega) (by omega)]
  rfl

theorem fractionPart_point (text : String) {digits rest : List Char}
    (ascii : (digits ++ rest).all isAscii = true) (row : SomeDigits digits)
    (ended : (digits ++ rest).takeWhile Char.isDigit = digits) :
    fractionPart text ('.'.toUInt8 :: (digits ++ rest).map Char.toUInt8) =
      .ok ((fractionMicros digits : Nat), rest.map Char.toUInt8) := by
  have whole : digits.length ≤ (digits ++ rest).length := by
    rw [List.length_append]
    exact Nat.le_add_right _ _
  have first : ((digits ++ rest).drop 0).take (min digits.length 6 - 0) = digits.take 6 := by
    rw [List.drop_zero, Nat.sub_zero, List.take_append_of_le_length (Nat.min_le_left _ _),
      Nat.min_comm, ← List.take_eq_take_min]
  have behind : ((digits ++ rest).drop digits.length).take
      ((digits ++ rest).length - digits.length) = rest := by
    rw [List.drop_left, List.length_append, Nat.add_sub_cancel_left, List.take_length]
  unfold fractionPart
  simp only [ne_eq, not_true_eq_false, if_false]
  rw [takeWhile_isDigitByte ascii, ended, List.length_map,
    if_neg fun none_there => row.1 (List.eq_nil_of_length_eq_zero none_there),
    slice?_map ascii (Nat.zero_le _) (Nat.le_trans (Nat.min_le_left _ _) whole), first,
    within_some_bind, millionths_eq text row, List.length_map,
    slice?_map ascii whole (Nat.le_refl _), behind]
  rfl

theorem fractionPart_eq (text : String) {chars : List Char} (ascii : chars.all isAscii = true) :
    fractionPart text (chars.map Char.toUInt8) =
      orRefused (.malformed text) ((readFraction? chars).map fun (micros, rest) =>
        (micros, rest.map Char.toUInt8)) := by
  unfold readFraction?
  split
  · rename_i after
    rw [List.all_cons, Bool.and_eq_true] at ascii
    simp only
    split
    · rename_i none_there
      rw [Option.map_none, List.map_cons, fractionPart]
      simp only [ne_eq, not_true_eq_false, if_false]
      rw [takeWhile_isDigitByte ascii.2, none_there]
      rfl
    · rename_i some_digit
      have row : SomeDigits (after.takeWhile Char.isDigit) :=
        ⟨some_digit, fun c => isDigit_of_mem_takeWhile⟩
      have split := @List.takeWhile_append_dropWhile _ Char.isDigit after
      have read := @fractionPart_point text (after.takeWhile Char.isDigit)
        (after.dropWhile Char.isDigit) (by rw [split]; exact ascii.2) row (by rw [split])
      rw [split] at read
      rw [List.map_cons, read, number?_filled row]
      rfl
  · rename_i no_point
    cases chars with
    | nil => rfl
    | cons c rest =>
      rw [List.all_cons, Bool.and_eq_true] at ascii
      have other : c.toUInt8 ≠ '.'.toUInt8 := by
        intro same
        cases (toUInt8_inj ascii.1 (by decide)).mp same
        exact no_point rest rfl
      rw [List.map_cons, fractionPart]
      simp only [ne_eq, other, not_false_eq_true, if_true]
      rfl

theorem signFactor?_eq {sign : Char} (ascii : isAscii sign = true) :
    signFactor? sign.toUInt8 = factor? sign := by
  have plus : isAscii '+' = true := by decide
  have minus : isAscii '-' = true := by decide
  simp only [signFactor?, factor?, toUInt8_inj ascii plus, toUInt8_inj ascii minus]

theorem int16_of_small {n : Int} (small : n.natAbs < 1440) : (Int16.ofInt n).toInt = n := by
  apply Int16.toInt_ofInt_of_le
  · change -32768 ≤ n
    omega
  · change n < 32768
    omega

theorem signedOffset_six {sign h1 h2 colon m1 m2 : Char}
    (ascii : [sign, h1, h2, colon, m1, m2].all isAscii = true) :
    signedOffset ([sign, h1, h2, colon, m1, m2].map Char.toUInt8) =
      orRefused (.invalidOffset (String.ofList [sign, h1, h2, colon, m1, m2]))
        (readOffset? [sign, h1, h2, colon, m1, m2]) := by
  have hours_slice : slice? ([sign, h1, h2, colon, m1, m2].map Char.toUInt8) 1 3 =
      some [h1.toUInt8, h2.toUInt8] := slice?_map ascii (by decide) (by simp)
  have minutes_slice : slice? ([sign, h1, h2, colon, m1, m2].map Char.toUInt8) 4 6 =
      some [m1.toUInt8, m2.toUInt8] := slice?_map ascii (by decide) (by simp)
  have hours_word : wordOf? [h1.toUInt8, h2.toUInt8] = number? [h1, h2] :=
    wordOf?_map (all_take_drop ascii 1 2) (by simp)
  have minutes_word : wordOf? [m1.toUInt8, m2.toUInt8] = number? [m1, m2] :=
    wordOf?_map (all_take_drop ascii 4 2) (by simp)
  have text := map_toUInt8_text ascii
  simp only [List.all_cons, List.all_nil, Bool.and_true, Bool.and_eq_true] at ascii
  have colon_same : colon.toUInt8 = ':'.toUInt8 ↔ colon = ':' :=
    toUInt8_inj ascii.2.2.2.1 (by decide)
  unfold signedOffset
  rw [hours_slice, minutes_slice, text]
  simp only [List.length_map, List.length_cons, List.length_nil, Nat.reduceAdd, ne_eq,
    not_true_eq_false, if_false, List.map_cons, List.getElem?_cons_succ, List.getElem?_cons_zero,
    within_some_bind, hours_word, minutes_word, colon_same, signFactor?_eq ascii.1]
  by_cases separated : colon = ':'
  · subst separated
    rw [if_neg (fun other => other rfl), readOffset?_six]
    cases factor_read : factor? sign with
    | none => rfl
    | some factor =>
      cases hours_read : number? [h1, h2] with
      | none => rfl
      | some hours =>
        cases minutes_read : number? [m1, m2] with
        | none => rfl
        | some minutes =>
          simp only [orRefused_some_bind, Option.bind_some]
          split
          · rfl
          · rename_i inside
            have hours_range := number?_range hours_read
            have minutes_range := number?_range minutes_read
            have small : (factor * (hours * 60 + minutes)).natAbs < 1440 := by
              rcases factor?_eq_some.mp factor_read with ⟨-, rfl⟩ | ⟨-, rfl⟩ <;> omega
            rw [long?_of_fits (by omega) (by omega), within_some_bind,
              long?_of_fits (by omega) (by omega), within_some_bind,
              long?_of_fits (by omega) (by omega), within_some_bind, int16_of_small small]
            rfl
  · rw [if_pos separated, readOffset?_of_colon separated]
    rfl

theorem offsetPart_eq {chars : List Char} (ascii : chars.all isAscii = true) :
    offsetPart (chars.map Char.toUInt8) =
      orRefused (.invalidOffset (String.ofList chars)) (readOffset? chars) := by
  have marks : (chars.map Char.toUInt8 = [] ∨ chars.map Char.toUInt8 = ['Z'.toUInt8] ∨
      chars.map Char.toUInt8 = ['z'.toUInt8]) ↔ chars = [] ∨ chars = ['Z'] ∨ chars = ['z'] := by
    have capital := @map_toUInt8_inj chars ['Z'] ascii (by decide)
    have small := @map_toUInt8_inj chars ['z'] ascii (by decide)
    simp only [List.map_cons, List.map_nil] at capital small
    rw [List.map_eq_nil_iff, capital, small]
  unfold offsetPart
  simp only [marks]
  split
  · rename_i marked
    rw [readOffset?_of_marked marked]
    rfl
  · rename_i unmarked
    by_cases six : chars.length = 6
    · match chars, six with
      | [sign, h1, h2, colon, m1, m2], _ => exact signedOffset_six ascii
    · rw [readOffset?_of_length six unmarked, signedOffset, List.length_map, if_pos six,
        map_toUInt8_text ascii]
      rfl

theorem toDays_small {date : Date} (year : 0 ≤ date.year ∧ date.year ≤ 9999)
    (valid : date.Valid) : date.toDays.natAbs ≤ 3000000 := by
  obtain ⟨first_month, last_month, first_day, last_day⟩ := valid
  have longest := daysInMonth_le date.year date.month
  have start : -1 ≤ (if date.month ≤ 2 then date.year - 1 else date.year) ∧
      (if date.month ≤ 2 then date.year - 1 else date.year) ≤ 9999 := by
    split <;> omega
  unfold Date.toDays
  simp only
  omega

theorem micros?_eq {fixed : Fixed} {fraction : Int}
    (year : 0 ≤ fixed.date.year ∧ fixed.date.year ≤ 9999) (valid : fixed.date.Valid)
    (hours : 0 ≤ fixed.hours ∧ fixed.hours ≤ 23) (minutes : 0 ≤ fixed.minutes ∧ fixed.minutes ≤ 59)
    (seconds : 0 ≤ fixed.seconds ∧ fixed.seconds ≤ 59)
    (fraction_range : 0 ≤ fraction ∧ fraction < 1000000) :
    fixed.micros? fraction = some (fixed.micros + fraction) ∧
      (fixed.micros + fraction).natAbs ≤ 300000000000000000 := by
  have small := toDays_small year valid
  have days := @Date.toDays?_eq fixed.date ⟨valid.1, valid.2.1⟩
    ⟨valid.2.2.1, Int.le_trans valid.2.2.2 (daysInMonth_le _ _)⟩ (by omega) (by omega)
  unfold Fixed.micros? Fixed.micros
  rw [days]
  generalize fixed.date.toDays = count at small
  simp only [microsPerDay, microsPerHour, microsPerMinute, microsPerSecond]
  constructor
  · simp (disch := omega) only [Option.bind_eq_bind, Option.bind_some, long?_of_fits]
  · omega

theorem instant_eq {localTime offset : Int} (bounded : localTime.natAbs ≤ 300000000000000000)
    (small : offset.natAbs < 1440) :
    (do
      let shift ← within (long? (offset * microsPerMinute))
      let micros ← within (long? (localTime - shift))
      .ok ⟨micros, offset⟩ : Guarded Fault Timestamp) =
      .ok ⟨localTime - offset * microsPerMinute, offset⟩ := by
  unfold microsPerMinute microsPerSecond
  rw [long?_of_fits (by omega) (by omega), within_some_bind,
    long?_of_fits (by omega) (by omega), within_some_bind]

theorem readFraction?_ascii {chars rest : List Char} {micros : Int}
    (read : readFraction? chars = some (micros, rest)) (ascii : chars.all isAscii = true) :
    rest.all isAscii = true := by
  obtain ⟨fraction?, split, -, -⟩ := readFraction?_split read
  rw [split, List.all_append, Bool.and_eq_true] at ascii
  exact ascii.2

/-- No text leads out of bounds. -/
theorem parse_eq_read (text : String) : parse text = (read text).mapError some := by
  unfold parse read
  rw [fixedPart_eq]
  cases fixed_read : fixed? text.toList with
  | none => rfl
  | some fixed =>
    obtain ⟨⟨ascii, long, -⟩, -⟩ := fixed?_eq_some_columns.mp fixed_read
    obtain ⟨year, hours, minutes, seconds⟩ := fixed?_range fixed_read
    rw [orRefused_some_bind]
    simp only
    cases outside : fixed.outOfRange? with
    | some field => rfl
    | none =>
      obtain ⟨valid, hours_high, minutes_high, seconds_high⟩ := outOfRange?_eq_none.mp outside
      have width : (text.toList.drop 19).take (text.toList.length - 19) = text.toList.drop 19 := by
        rw [← List.length_drop, List.take_length]
      have behind : slice? (utf8 text) 19 (utf8 text).length =
          some ((text.toList.drop 19).map Char.toUInt8) := by
        rw [utf8_eq_map ascii, List.length_map, slice?_map ascii long (Nat.le_refl _), width]
      have tail_ascii : (text.toList.drop 19).all isAscii = true := by
        rw [← width]
        exact all_take_drop ascii 19 _
      simp only
      rw [behind, within_some_bind, fractionPart_eq text tail_ascii]
      cases fraction_read : readFraction? (text.toList.drop 19) with
      | none => rfl
      | some found =>
        obtain ⟨fraction, rest⟩ := found
        rw [Option.map_some, orRefused_some_bind]
        simp only
        rw [offsetPart_eq (readFraction?_ascii fraction_read tail_ascii)]
        cases offset_read : readOffset? rest with
        | none => rfl
        | some offset =>
          obtain ⟨whole, bounded⟩ := micros?_eq year valid ⟨hours, hours_high⟩
            ⟨minutes, minutes_high⟩ ⟨seconds, seconds_high⟩ (readFraction?_range fraction_read)
          rw [orRefused_some_bind, whole, within_some_bind]
          exact instant_eq bounded (readOffset?_range offset_read)

end Timestamp
end EntityCatalog
