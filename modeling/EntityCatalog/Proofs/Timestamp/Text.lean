import EntityCatalog.Proofs.Timestamp.Calendar
import EntityCatalog.Timestamp

/- Writing a timestamp and reading it again, where the year of its local time has four digits and
   no sign and its offset is less than a day. A time in any other year is written, too, but the
   text is wider than the form that is read, and it is refused. -/
namespace EntityCatalog
namespace Timestamp

def localMicros (timestamp : Timestamp) : Int :=
  timestamp.micros + timestamp.offset * microsPerMinute

def localDate (timestamp : Timestamp) : Date := Date.ofDays (timestamp.localMicros / microsPerDay)

structure Writable (timestamp : Timestamp) : Prop where
  year : 0 ≤ timestamp.localDate.year ∧ timestamp.localDate.year ≤ 9999
  offset : timestamp.offset.natAbs < 1440

/-- A time of which the year in universal time has four digits and no sign. -/
def FourDigitYear (micros : Int) : Prop :=
  0 ≤ (Date.ofDays (micros / microsPerDay)).year ∧
    (Date.ofDays (micros / microsPerDay)).year ≤ 9999

instance (micros : Int) : Decidable (FourDigitYear micros) :=
  inferInstanceAs (Decidable (_ ∧ _))

theorem FourDigitYear.writable {micros : Int} (year : FourDigitYear micros) :
    Writable ⟨micros, 0⟩ := by
  have universal : localMicros ⟨micros, 0⟩ = micros := by
    simp [localMicros]
  constructor
  · unfold localDate
    rw [universal]
    exact year
  · change (0 : Int).natAbs < 1440
    decide

theorem isDigit_of_mem_paddedDigits {width n : Nat} {c : Char}
    (member : c ∈ paddedDigits width n) : c.isDigit = true := by
  rcases List.mem_append.mp member with zero | digit
  · rw [List.eq_of_mem_replicate zero]
    decide
  · exact Nat.isDigit_of_mem_toDigits (by decide) (by decide) digit

theorem isAscii_of_isDigit {c : Char} (isDigit : c.isDigit = true) : isAscii c = true := by
  obtain ⟨-, high⟩ := Char.isDigit_iff_toNat.mp isDigit
  have top : '9'.toNat = 57 := rfl
  unfold isAscii
  simp only [decide_eq_true_eq]
  omega

theorem paddedDigits_ascii (width n : Nat) : (paddedDigits width n).all isAscii = true :=
  List.all_eq_true.mpr fun _ member => isAscii_of_isDigit (isDigit_of_mem_paddedDigits member)

theorem ofDigitChars_padded (width n : Nat) : Nat.ofDigitChars 10 (paddedDigits width n) 0 = n := by
  simp only [paddedDigits, Nat.ofDigitChars_append, Nat.ofDigitChars_replicate_zero, Nat.mul_zero,
    Nat.ofDigitChars_ten_toDigits]

theorem number?_paddedDigits (width n : Nat) : number? (paddedDigits width n) = some (n : Int) := by
  have some_digit : paddedDigits width n ≠ [] :=
    List.append_ne_nil_of_right_ne_nil _ Nat.toDigits_ne_nil
  have allDigits : (paddedDigits width n).all Char.isDigit = true :=
    List.all_eq_true.mpr fun c => isDigit_of_mem_paddedDigits
  unfold number?
  rw [if_pos ⟨some_digit, allDigits⟩, ofDigitChars_padded]

theorem length_paddedDigits {width n : Nat} (positive : 0 < width) (fits : n < Nat.pow 10 width) :
    (paddedDigits width n).length = width := by
  have short := (Nat.length_toDigits_le_iff (by decide) positive).mpr fits
  simp only [paddedDigits, List.length_append, List.length_replicate]
  omega

theorem two_digits {n : Nat} (fits : n < 100) :
    ∃ a b, paddedDigits 2 n = [a, b] ∧ number? [a, b] = some (n : Int) := by
  have number := number?_paddedDigits 2 n
  have length : (paddedDigits 2 n).length = 2 := length_paddedDigits (by decide) fits
  match form : paddedDigits 2 n with
  | [a, b] =>
    rw [form] at number
    exact ⟨a, b, rfl, number⟩
  | [] | [_] | _ :: _ :: _ :: _ =>
    rw [form] at length
    simp at length

theorem two_digits_of_int {n : Int} (low : 0 ≤ n) (high : n < 100) :
    ∃ a b, paddedDigits 2 n.toNat = [a, b] ∧ number? [a, b] = some n := by
  obtain ⟨a, b, form, number⟩ := two_digits (show n.toNat < 100 by omega)
  rw [Int.toNat_of_nonneg low] at number
  exact ⟨a, b, form, number⟩

theorem four_digits {n : Nat} (fits : n < 10000) :
    ∃ a b c d, paddedDigits 4 n = [a, b, c, d] ∧ number? [a, b, c, d] = some (n : Int) := by
  have number := number?_paddedDigits 4 n
  have length : (paddedDigits 4 n).length = 4 := length_paddedDigits (by decide) fits
  match form : paddedDigits 4 n with
  | [a, b, c, d] =>
    rw [form] at number
    exact ⟨a, b, c, d, rfl, number⟩
  | [] | [_] | [_, _] | [_, _, _] | _ :: _ :: _ :: _ :: _ :: _ =>
    rw [form] at length
    simp at length

theorem offset_reads_back {offset : Int} (small : offset.natAbs < 1440) :
    readOffset? (offsetChars offset) = some offset := by
  unfold offsetChars
  split
  · rename_i zero
    rw [zero]
    rfl
  · obtain ⟨h1, h2, hours_form, hours⟩ := two_digits (show offset.natAbs / 60 < 100 by omega)
    obtain ⟨m1, m2, minutes_form, minutes⟩ := two_digits (show offset.natAbs % 60 < 100 by omega)
    rw [hours_form, minutes_form]
    have in_range : ¬ (23 < ((offset.natAbs / 60 : Nat) : Int) ∨
        59 < ((offset.natAbs % 60 : Nat) : Int)) := by omega
    split
    · simp only [List.cons_append, List.nil_append, readOffset?, hours, minutes, if_neg in_range]
      rw [if_neg (by decide), if_pos trivial]
      congr 1
      omega
    · simp only [List.cons_append, List.nil_append, readOffset?, hours, minutes, if_neg in_range]
      rw [if_pos trivial]
      congr 1
      omega

theorem offsetChars_head (offset : Int) :
    ∃ c rest, offsetChars offset = c :: rest ∧ c.isDigit = false ∧ c ≠ '.' := by
  unfold offsetChars
  split
  · exact ⟨'Z', [], rfl, by decide, by decide⟩
  · split
    · exact ⟨'-', _, rfl, by decide, by decide⟩
    · exact ⟨'+', _, rfl, by decide, by decide⟩

theorem offsetChars_ascii (offset : Int) : (offsetChars offset).all isAscii = true := by
  unfold offsetChars
  split
  · decide
  · rw [List.all_cons, List.all_append, List.all_cons, paddedDigits_ascii, paddedDigits_ascii]
    split <;> decide

theorem trimmed_append_zeros (digits : List Char) :
    ∃ count, (digits.reverse.dropWhile (· = '0')).reverse ++ List.replicate count '0' = digits := by
  -- The zeros at the end that were dropped are those that are filled in again.
  refine ⟨(digits.reverse.takeWhile (· = '0')).length, ?_⟩
  have zeros : digits.reverse.takeWhile (· = '0') =
      List.replicate (digits.reverse.takeWhile (· = '0')).length '0' := by
    apply List.eq_replicate_of_mem
    intro c member
    have all_zeros : (digits.reverse.takeWhile (· = '0')).all (· = '0') = true :=
      List.all_takeWhile
    simpa using List.all_eq_true.mp all_zeros c member
  have whole : digits.reverse.takeWhile (· = '0') ++ digits.reverse.dropWhile (· = '0') =
      digits.reverse := List.takeWhile_append_dropWhile
  have turned := congrArg List.reverse whole
  rw [List.reverse_append, List.reverse_reverse, zeros, List.reverse_replicate] at turned
  exact turned

theorem fraction_reads_back {micros : Nat} (fits : micros < 1000000) (offset : Int) :
    readFraction? (fractionChars micros ++ offsetChars offset) =
      some ((micros : Int), offsetChars offset) := by
  obtain ⟨c, rest, form, no_digit, no_point⟩ := offsetChars_head offset
  unfold fractionChars
  split
  · rename_i zero
    rw [zero, List.nil_append, form]
    unfold readFraction?
    split
    · rename_i same
      cases same
      exact absurd rfl no_point
    · rfl
  · rename_i nonzero
    obtain ⟨count, padded⟩ := trimmed_append_zeros (paddedDigits 6 micros)
    generalize trimmed_eq : ((paddedDigits 6 micros).reverse.dropWhile (· = '0')).reverse =
      trimmed at padded
    have allDigits : ∀ c ∈ trimmed, c.isDigit = true := fun c member =>
      isDigit_of_mem_paddedDigits (by rw [← padded]; exact List.mem_append_left _ member)
    have number := number?_paddedDigits 6 micros
    have length := length_paddedDigits (by decide : 0 < 6) fits
    rw [← padded] at number length
    rw [List.length_append, List.length_replicate] at length
    have some_digit : trimmed ≠ [] := by
      intro empty
      rw [empty, List.nil_append] at padded
      have value : Nat.ofDigitChars 10 (paddedDigits 6 micros) 0 = micros := ofDigitChars_padded 6 _
      rw [← padded, Nat.ofDigitChars_replicate_zero, Nat.mul_zero] at value
      exact nonzero value.symm
    have taken : (trimmed ++ offsetChars offset).takeWhile Char.isDigit = trimmed := by
      rw [List.takeWhile_append_of_pos allDigits, form,
        List.takeWhile_cons_of_neg (by simp [no_digit]), List.append_nil]
    have dropped : (trimmed ++ offsetChars offset).dropWhile Char.isDigit = offsetChars offset := by
      rw [List.dropWhile_append_of_pos allDigits, form,
        List.dropWhile_cons_of_neg (by simp [no_digit])]
    have filled : (trimmed ++ List.replicate 6 '0').take 6 =
        trimmed ++ List.replicate count '0' := by
      rw [List.take_append, List.take_of_length_le (by omega), List.take_replicate]
      congr 2
      omega
    rw [List.cons_append]
    simp only [readFraction?, taken, dropped, if_neg some_digit, filled, number, Option.map_some]

theorem fractionChars_ascii (micros : Nat) : (fractionChars micros).all isAscii = true := by
  unfold fractionChars
  split
  · rfl
  · obtain ⟨count, padded⟩ := trimmed_append_zeros (paddedDigits 6 micros)
    have ascii := paddedDigits_ascii 6 micros
    rw [← padded, List.all_append, Bool.and_eq_true] at ascii
    rw [List.all_cons, ascii.1]
    decide

theorem fixed?_eq_some {y1 y2 y3 y4 m1 m2 d1 d2 divider h1 h2 n1 n2 s1 s2 : Char}
    {rest : List Char} {fixed : Fixed}
    (divides : divider = 'T' ∨ divider = 't' ∨ divider = ' ')
    (year : number? [y1, y2, y3, y4] = some fixed.date.year)
    (month : number? [m1, m2] = some fixed.date.month)
    (day : number? [d1, d2] = some fixed.date.day) (hours : number? [h1, h2] = some fixed.hours)
    (minutes : number? [n1, n2] = some fixed.minutes)
    (seconds : number? [s1, s2] = some fixed.seconds) {chars : List Char}
    (form : chars = y1 :: y2 :: y3 :: y4 :: '-' :: m1 :: m2 :: '-' :: d1 :: d2 :: divider ::
      h1 :: h2 :: ':' :: n1 :: n2 :: ':' :: s1 :: s2 :: rest)
    (ascii : chars.all isAscii = true) : fixed? chars = some fixed := by
  have long : 19 ≤ chars.length := by
    rw [form]
    simp only [List.length_cons]
    omega
  have mark : chars[10]? = some 'T' ∨ chars[10]? = some 't' ∨ chars[10]? = some ' ' := by
    rw [form]
    rcases divides with rfl | rfl | rfl
    · exact Or.inl rfl
    · exact Or.inr (Or.inl rfl)
    · exact Or.inr (Or.inr rfl)
  unfold fixed?
  subst form
  rw [if_pos ⟨ascii, long, rfl, rfl, mark, rfl, rfl⟩]
  simp only [field?, List.drop_zero, List.drop_succ_cons, List.take_succ_cons, List.take_zero,
    year, month, day, hours, minutes, seconds]
  rfl

def parts (timestamp : Timestamp) : Fixed :=
  let time := timestamp.localMicros % microsPerDay
  ⟨timestamp.localDate, time / microsPerHour, time % microsPerHour / microsPerMinute,
    time % microsPerMinute / microsPerSecond⟩

def fraction (timestamp : Timestamp) : Int :=
  timestamp.localMicros % microsPerDay % microsPerSecond

theorem parts_ranges (timestamp : Timestamp) :
    timestamp.parts.date.Valid ∧
      (0 ≤ timestamp.parts.hours ∧ timestamp.parts.hours ≤ 23) ∧
      (0 ≤ timestamp.parts.minutes ∧ timestamp.parts.minutes ≤ 59) ∧
      0 ≤ timestamp.parts.seconds ∧ timestamp.parts.seconds ≤ 59 := by
  refine ⟨Date.ofDays_valid _, ?_⟩
  unfold parts
  simp only [microsPerDay, microsPerHour, microsPerMinute, microsPerSecond]
  omega

theorem parts_in_range (timestamp : Timestamp) : timestamp.parts.outOfRange? = none := by
  obtain ⟨⟨month_low, month_high, day_low, day_high⟩, hours, minutes, seconds⟩ :=
    parts_ranges timestamp
  unfold Fixed.outOfRange?
  rw [if_neg (by omega), if_neg (by omega), if_neg (by omega), if_neg (by omega),
    if_neg (by omega)]

theorem parts_micros (timestamp : Timestamp) :
    timestamp.parts.micros + timestamp.fraction = timestamp.localMicros := by
  unfold Fixed.micros parts fraction localDate
  simp only [Date.toDays_ofDays, microsPerDay, microsPerHour, microsPerMinute, microsPerSecond]
  omega

theorem chars_parts (timestamp : Timestamp) :
    timestamp.chars =
      yearChars timestamp.parts.date.year ++
        '-' :: (paddedDigits 2 timestamp.parts.date.month.toNat ++
        '-' :: (paddedDigits 2 timestamp.parts.date.day.toNat ++
        'T' :: (paddedDigits 2 timestamp.parts.hours.toNat ++
        ':' :: (paddedDigits 2 timestamp.parts.minutes.toNat ++
        ':' :: (paddedDigits 2 timestamp.parts.seconds.toNat ++
        (fractionChars timestamp.fraction.toNat ++ offsetChars timestamp.offset)))))) := by
  rfl

theorem daysInMonth_le (year month : Int) : daysInMonth year month ≤ 31 := by
  unfold daysInMonth
  repeat' split
  all_goals omega

theorem chars_read {timestamp : Timestamp} (writable : timestamp.Writable) :
    fixed? timestamp.chars = some timestamp.parts ∧
      timestamp.chars.drop 19 =
        fractionChars timestamp.fraction.toNat ++ offsetChars timestamp.offset := by
  have year : 0 ≤ timestamp.parts.date.year ∧ timestamp.parts.date.year ≤ 9999 := writable.year
  obtain ⟨⟨month_low, month_high, day_low, day_high⟩, hours, minutes, seconds⟩ :=
    parts_ranges timestamp
  have longest := daysInMonth_le timestamp.parts.date.year timestamp.parts.date.month
  have form := chars_parts timestamp
  have positive : ¬ timestamp.parts.date.year < 0 := by omega
  rw [yearChars, if_neg positive] at form
  have ascii : timestamp.chars.all isAscii = true := by
    rw [form]
    simp only [List.all_append, List.all_cons, paddedDigits_ascii, fractionChars_ascii,
      offsetChars_ascii]
    decide
  obtain ⟨y1, y2, y3, y4, year_form, year_number⟩ :=
    four_digits (show timestamp.parts.date.year.natAbs < 10000 by omega)
  obtain ⟨m1, m2, month_form, month_number⟩ :=
    two_digits_of_int (show 0 ≤ timestamp.parts.date.month by omega) (by omega)
  obtain ⟨d1, d2, day_form, day_number⟩ :=
    two_digits_of_int (show 0 ≤ timestamp.parts.date.day by omega) (by omega)
  obtain ⟨h1, h2, hours_form, hours_number⟩ := two_digits_of_int hours.1 (by omega)
  obtain ⟨n1, n2, minutes_form, minutes_number⟩ := two_digits_of_int minutes.1 (by omega)
  obtain ⟨s1, s2, seconds_form, seconds_number⟩ := two_digits_of_int seconds.1 (by omega)
  rw [year_form, month_form, day_form, hours_form, minutes_form, seconds_form] at form
  rw [Int.natAbs_of_nonneg year.1] at year_number
  constructor
  · exact fixed?_eq_some (Or.inl rfl) year_number month_number day_number hours_number
      minutes_number seconds_number form ascii
  · rw [form]
    rfl

theorem writable_reads_back {timestamp : Timestamp} (writable : timestamp.Writable) :
    read timestamp.text = .ok timestamp := by
  obtain ⟨fixed, tail⟩ := chars_read writable
  have small : timestamp.fraction.toNat < 1000000 := by
    unfold fraction microsPerSecond
    omega
  have nonneg : ((timestamp.fraction.toNat : Nat) : Int) = timestamp.fraction := by
    unfold fraction microsPerSecond
    omega
  have fraction_read := fraction_reads_back small timestamp.offset
  have whole := parts_micros timestamp
  unfold read text
  rw [String.toList_ofList]
  simp only [fixed, parts_in_range, tail, fraction_read, offset_reads_back writable.offset, nonneg,
    whole]
  unfold localMicros
  congr 1
  rw [Int.add_sub_cancel]

theorem fixed?_of_sign (rest : List Char) : fixed? ('-' :: rest) = none := by
  -- A sign is no digit of a year.
  have year : field? ('-' :: rest) 0 4 = none := by
    change number? ('-' :: rest.take 3) = none
    unfold number?
    rw [if_neg]
    intro allDigits
    have first := List.all_eq_true.mp allDigits.2 '-' (by simp)
    exact absurd first (by decide)
  unfold fixed?
  split
  · simp only [year]
    rfl
  · rfl

theorem fixed?_of_long_year {n : Nat} (long : 9999 < n) (rest : List Char) :
    fixed? (paddedDigits 4 n ++ rest) = none := by
  -- A year of more than four digits has a digit where the first separator belongs.
  have five : 4 < (paddedDigits 4 n).length := by
    have digits : ¬ (Nat.toDigits 10 n).length ≤ 4 := by
      rw [Nat.length_toDigits_le_iff (by decide) (by decide)]
      exact Nat.not_lt.mpr long
    rw [paddedDigits, List.length_append]
    omega
  have fifth : (paddedDigits 4 n ++ rest)[4]? = some (paddedDigits 4 n)[4] := by
    rw [List.getElem?_append_left five, List.getElem?_eq_getElem five]
  have digit := isDigit_of_mem_paddedDigits (List.getElem_mem five)
  unfold fixed?
  rw [if_neg]
  intro separated
  have dash := separated.2.2.1
  rw [fifth, Option.some.injEq] at dash
  rw [dash] at digit
  exact absurd digit (by decide)

theorem fixed?_of_year {timestamp : Timestamp}
    (year : ¬ (0 ≤ timestamp.localDate.year ∧ timestamp.localDate.year ≤ 9999)) :
    fixed? timestamp.chars = none := by
  rw [chars_parts]
  change fixed? (yearChars timestamp.localDate.year ++ _) = none
  unfold yearChars
  split
  · exact fixed?_of_sign _
  · exact fixed?_of_long_year (by omega) _

/-- A time that was written comes back unless its year does not fit into four digits. -/
theorem universal_reads_back (micros : Int) :
    read (text ⟨micros, 0⟩) =
      if FourDigitYear micros then .ok ⟨micros, 0⟩ else .error (.malformed (text ⟨micros, 0⟩)) := by
  split
  · rename_i year
    exact writable_reads_back year.writable
  · rename_i year
    have universal : localMicros ⟨micros, 0⟩ = micros := by
      simp [localMicros]
    have unread : fixed? (chars ⟨micros, 0⟩) = none := by
      apply fixed?_of_year
      unfold localDate
      rw [universal]
      exact year
    unfold read
    rw [show (text ⟨micros, 0⟩).toList = chars ⟨micros, 0⟩ from String.toList_ofList, unread]

end Timestamp
end EntityCatalog
