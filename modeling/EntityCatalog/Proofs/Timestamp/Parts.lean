import EntityCatalog.Proofs.Decimal.Numeral
import EntityCatalog.Proofs.Timestamp.Text

/- The parts of a written time: columns of digits and a fraction. What each of them denotes, and the
   bounds of the number. -/
namespace EntityCatalog
namespace Timestamp

def number (digits : List Char) : Nat := Nat.ofDigitChars 10 digits 0

def SomeDigits (chars : List Char) : Prop := chars ≠ [] ∧ ∀ c ∈ chars, c.isDigit = true

def Digits (width : Nat) (chars : List Char) : Prop :=
  chars.length = width ∧ ∀ c ∈ chars, c.isDigit = true

theorem number?_eq_some {digits : List Char} {n : Int} :
    number? digits = some n ↔ SomeDigits digits ∧ n = (number digits : Nat) := by
  unfold number?
  rw [Option.ite_none_right_eq_some, Option.some.injEq, List.all_eq_true, eq_comm]
  exact Iff.rfl

theorem SomeDigits.number?_eq {digits : List Char} (row : SomeDigits digits) :
    number? digits = some ((number digits : Nat) : Int) :=
  number?_eq_some.mpr ⟨row, rfl⟩

theorem number?_range {digits : List Char} {n : Int} (read : number? digits = some n) :
    0 ≤ n ∧ n < tenTo digits.length := by
  obtain ⟨row, rfl⟩ := number?_eq_some.mp read
  have small : number digits < tenTo digits.length := number_lt row.2
  omega

theorem Digits.some_digits {width : Nat} {digits : List Char} (row : Digits width digits)
    (positive : 0 < width) : SomeDigits digits := by
  refine ⟨?_, row.2⟩
  rintro rfl
  exact absurd row.1 (Nat.ne_of_lt positive)

theorem Digits.two {digits : List Char} (row : Digits 2 digits) :
    ∃ a b, digits = [a, b] ∧ number? [a, b] = some ((number digits : Nat) : Int) := by
  match digits, row.1 with
  | [a, b], _ => exact ⟨a, b, rfl, (row.some_digits (by decide)).number?_eq⟩

theorem Digits.four {digits : List Char} (row : Digits 4 digits) :
    ∃ a b c d, digits = [a, b, c, d] ∧
      number? [a, b, c, d] = some ((number digits : Nat) : Int) := by
  match digits, row.1 with
  | [a, b, c, d], _ => exact ⟨a, b, c, d, rfl, (row.some_digits (by decide)).number?_eq⟩

theorem digits_of_number? {width : Nat} {digits : List Char} {n : Int}
    (length : digits.length = width) (read : number? digits = some n) :
    Digits width digits ∧ n = (number digits : Nat) := by
  obtain ⟨row, value⟩ := number?_eq_some.mp read
  exact ⟨⟨length, row.2⟩, value⟩

theorem all_ascii_of_digits {chars : List Char} (allDigits : ∀ c ∈ chars, c.isDigit = true) :
    chars.all isAscii = true :=
  List.all_eq_true.mpr fun c member => isAscii_of_isDigit (allDigits c member)

theorem isDigit_of_mem_takeWhile {chars : List Char} {c : Char}
    (member : c ∈ chars.takeWhile Char.isDigit) : c.isDigit = true :=
  List.all_eq_true.mp List.all_takeWhile c member

theorem SomeDigits.take {digits : List Char} (row : SomeDigits digits) {count : Nat}
    (positive : 0 < count) : SomeDigits (digits.take count) := by
  refine ⟨fun empty => ?_, fun c member => row.2 c (List.mem_of_mem_take member)⟩
  rcases List.take_eq_nil_iff.mp empty with zero | nothing
  · exact absurd zero (Nat.ne_of_gt positive)
  · exact row.1 nothing

theorem SomeDigits.append_zeros {digits : List Char} (row : SomeDigits digits) (count : Nat) :
    SomeDigits (digits ++ List.replicate count '0') := by
  refine ⟨List.append_ne_nil_of_left_ne_nil row.1 _, fun c member => ?_⟩
  rcases List.mem_append.mp member with digit | zero
  · exact row.2 c digit
  · rw [List.eq_of_mem_replicate zero]
    decide

theorem number_append_zeros (digits : List Char) (count : Nat) :
    number (digits ++ List.replicate count '0') = number digits * tenTo count := by
  unfold number
  rw [Nat.ofDigitChars_append, ofDigitChars_zeros, Nat.mul_comm]

theorem number_split (digits : List Char) (count : Nat) :
    number digits =
      tenTo (digits.length - count) * number (digits.take count) + number (digits.drop count) := by
  unfold number
  conv => lhs; rw [← List.take_append_drop count digits]
  rw [Nat.ofDigitChars_append, Nat.ofDigitChars_eq_ofDigitChars_zero, List.length_drop]
  rfl

theorem field?_range {chars : List Char} {start width : Nat} {n : Int}
    (read : field? chars start width = some n) : 0 ≤ n ∧ n < tenTo width := by
  obtain ⟨low, high⟩ := number?_range read
  have power : tenTo ((chars.drop start).take width).length ≤ tenTo width :=
    Nat.pow_le_pow_right (by decide) (List.length_take_le _ _)
  omega

def fractionMicros (digits : List Char) : Nat := number digits * tenTo 6 / tenTo digits.length

theorem fractionMicros_eq {digits : List Char} (allDigits : ∀ c ∈ digits, c.isDigit = true) :
    fractionMicros digits = number (digits.take 6) * tenTo (6 - (digits.take 6).length) := by
  unfold fractionMicros
  rcases Nat.le_total digits.length 6 with few | many
  · have power : tenTo 6 = tenTo (6 - digits.length) * tenTo digits.length := by
      rw [← tenTo_add, Nat.sub_add_cancel few]
    rw [List.take_of_length_le few, power, ← Nat.mul_assoc, Nat.mul_div_cancel _ (tenTo_pos _)]
  · -- the digits behind the sixth are worth less than one in its place, so the division drops them
    have later : number (digits.drop 6) < tenTo (digits.drop 6).length :=
      number_lt fun c member => allDigits c (List.mem_of_mem_drop member)
    rw [List.length_drop] at later
    have power : tenTo digits.length = tenTo (digits.length - 6) * tenTo 6 := by
      rw [← tenTo_add, Nat.sub_add_cancel many]
    rw [List.length_take_of_le many, power, Nat.mul_div_mul_right _ _ (tenTo_pos 6),
      number_split digits 6, Nat.mul_add_div (tenTo_pos _), Nat.div_eq_of_lt later, Nat.add_zero]
    exact (Nat.mul_one _).symm

theorem fractionMicros_lt {digits : List Char} (allDigits : ∀ c ∈ digits, c.isDigit = true) :
    fractionMicros digits < 1000000 := by
  have less : number digits * tenTo 6 < tenTo digits.length * tenTo 6 :=
    Nat.mul_lt_mul_of_pos_right (number_lt allDigits) (tenTo_pos 6)
  exact Nat.div_lt_of_lt_mul less

theorem number?_filled {digits : List Char} (row : SomeDigits digits) :
    number? ((digits ++ List.replicate 6 '0').take 6) =
      some ((fractionMicros digits : Nat) : Int) := by
  have filled : (digits ++ List.replicate 6 '0').take 6 =
      digits.take 6 ++ List.replicate (6 - (digits.take 6).length) '0' := by
    rw [List.take_append, List.take_replicate, List.length_take]
    congr 2
    omega
  rw [filled, ((row.take (by decide)).append_zeros _).number?_eq, number_append_zeros,
    fractionMicros_eq row.2]

theorem readFraction?_split {chars rest : List Char} {micros : Int}
    (read : readFraction? chars = some (micros, rest)) :
    ∃ fraction? : Option (List Char), chars = pointChars fraction? ++ rest ∧
      (∀ digits, fraction? = some digits → SomeDigits digits) ∧
      micros = (fraction?.elim 0 fractionMicros : Nat) := by
  unfold readFraction? at read
  split at read
  · rename_i after
    simp only at read
    split at read
    · cases read
    · rename_i some_digit
      have row : SomeDigits (after.takeWhile Char.isDigit) :=
        ⟨some_digit, fun c => isDigit_of_mem_takeWhile⟩
      rw [number?_filled row] at read
      cases read
      refine ⟨some (after.takeWhile Char.isDigit), ?_, ?_, rfl⟩
      · rw [pointChars, List.cons_append, List.takeWhile_append_dropWhile]
      · rintro digits ⟨⟩
        exact row
  · cases read
    refine ⟨none, rfl, ?_, rfl⟩
    intro digits there
    cases there

theorem readFraction?_pointChars {fraction? : Option (List Char)}
    (digits : ∀ digits, fraction? = some digits → SomeDigits digits)
    {rest : List Char} (ended : ∀ c after, rest = c :: after → c.isDigit = false ∧ c ≠ '.') :
    readFraction? (pointChars fraction? ++ rest) =
      some (((fraction?.elim 0 fractionMicros : Nat) : Int), rest) := by
  cases fraction? with
  | none =>
    rw [pointChars, List.nil_append]
    unfold readFraction?
    split
    · exact absurd rfl (ended _ _ rfl).2
    · rfl
  | some written =>
    have row := digits written rfl
    have stops : rest.takeWhile Char.isDigit = [] ∧ rest.dropWhile Char.isDigit = rest := by
      cases rest with
      | nil => exact ⟨rfl, rfl⟩
      | cons c after =>
        have no_digit := (ended c after rfl).1
        exact ⟨List.takeWhile_cons_of_neg (by simp [no_digit]),
          List.dropWhile_cons_of_neg (by simp [no_digit])⟩
    have taken : (written ++ rest).takeWhile Char.isDigit = written := by
      rw [List.takeWhile_append_of_pos row.2, stops.1, List.append_nil]
    have dropped : (written ++ rest).dropWhile Char.isDigit = rest := by
      rw [List.dropWhile_append_of_pos row.2, stops.2]
    rw [pointChars, List.cons_append]
    simp only [readFraction?, taken, dropped, if_neg row.1, number?_filled row, Option.map_some]
    rfl

theorem readFraction?_range {chars rest : List Char} {micros : Int}
    (read : readFraction? chars = some (micros, rest)) : 0 ≤ micros ∧ micros < 1000000 := by
  obtain ⟨fraction?, -, digits, rfl⟩ := readFraction?_split read
  cases fraction? with
  | none => decide
  | some fraction =>
    have small := fractionMicros_lt (digits fraction rfl).2
    rw [Option.elim_some]
    omega

theorem fixed?_eq_some_columns {chars : List Char} {fixed : Fixed} :
    fixed? chars = some fixed ↔
      (chars.all isAscii = true ∧ 19 ≤ chars.length ∧ chars[4]? = some '-' ∧
        chars[7]? = some '-' ∧
        (chars[10]? = some 'T' ∨ chars[10]? = some 't' ∨ chars[10]? = some ' ') ∧
        chars[13]? = some ':' ∧ chars[16]? = some ':') ∧
      field? chars 0 4 = some fixed.date.year ∧ field? chars 5 2 = some fixed.date.month ∧
      field? chars 8 2 = some fixed.date.day ∧ field? chars 11 2 = some fixed.hours ∧
      field? chars 14 2 = some fixed.minutes ∧ field? chars 17 2 = some fixed.seconds := by
  obtain ⟨⟨year, month, day⟩, hours, minutes, seconds⟩ := fixed
  unfold fixed?
  rw [Option.ite_none_right_eq_some]
  simp only [Option.bind_eq_bind, Option.bind_eq_some_iff, Option.some.injEq, Fixed.mk.injEq,
    Date.mk.injEq]
  constructor
  · rintro ⟨marks, _, read_year, _, read_month, _, read_day, _, read_hours, _, read_minutes, _,
      read_seconds, ⟨rfl, rfl, rfl⟩, rfl, rfl, rfl⟩
    exact ⟨marks, read_year, read_month, read_day, read_hours, read_minutes, read_seconds⟩
  · rintro ⟨marks, read_year, read_month, read_day, read_hours, read_minutes, read_seconds⟩
    exact ⟨marks, _, read_year, _, read_month, _, read_day, _, read_hours, _, read_minutes, _,
      read_seconds, ⟨rfl, rfl, rfl⟩, rfl, rfl, rfl⟩

theorem fixed?_range {chars : List Char} {fixed : Fixed} (read : fixed? chars = some fixed) :
    (0 ≤ fixed.date.year ∧ fixed.date.year ≤ 9999) ∧ 0 ≤ fixed.hours ∧ 0 ≤ fixed.minutes ∧
      0 ≤ fixed.seconds := by
  -- The year has four digits, and no number is negative.
  obtain ⟨-, year, -, -, hours, minutes, seconds⟩ := fixed?_eq_some_columns.mp read
  have year_range := field?_range year
  exact ⟨⟨year_range.1, Int.le_of_lt_add_one year_range.2⟩, (field?_range hours).1,
    (field?_range minutes).1, (field?_range seconds).1⟩

theorem outOfRange?_eq_none {fixed : Fixed} :
    fixed.outOfRange? = none ↔ fixed.date.Valid ∧ fixed.hours ≤ 23 ∧ fixed.minutes ≤ 59 ∧
      fixed.seconds ≤ 59 := by
  unfold Fixed.outOfRange? Date.Valid
  grind

theorem read_eq_ok {text : String} {timestamp : Timestamp} :
    read text = .ok timestamp ↔ ∃ fixed fraction rest offset, fixed? text.toList = some fixed ∧
      fixed.outOfRange? = none ∧ readFraction? (text.toList.drop 19) = some (fraction, rest) ∧
      readOffset? rest = some offset ∧
      timestamp = ⟨fixed.micros + fraction - offset * microsPerMinute, offset⟩ := by
  constructor
  · intro all
    unfold read at all
    split at all
    · cases all
    · rename_i fixed fixed_read
      split at all
      · cases all
      · rename_i inside
        split at all
        · cases all
        · rename_i fraction rest fraction_read
          split at all
          · cases all
          · rename_i offset offset_read
            cases all
            exact ⟨fixed, fraction, rest, offset, fixed_read, inside, fraction_read, offset_read,
              rfl⟩
  · rintro ⟨fixed, fraction, rest, offset, fixed_read, inside, fraction_read, offset_read, rfl⟩
    unfold read
    simp only [fixed_read, inside, fraction_read, offset_read]

end Timestamp
end EntityCatalog
