import EntityCatalog.Proofs.Results
import EntityCatalog.Proofs.Timestamp.Calendar
import EntityCatalog.Proofs.Timestamp.Reading

/- Which texts are read as times, and as which. A text is read if and only if it is a spelling of a
   date of the calendar and a time of a day; the instant is the number of days since 1970, counted
   one after the other, with the time of day added and the offset taken off. -/
namespace EntityCatalog
namespace Timestamp

structure Spelling where
  year : List Char
  month : List Char
  day : List Char
  divider : Char
  hours : List Char
  minutes : List Char
  seconds : List Char
  fraction? : Option (List Char)
  zone : Zone

namespace Spelling

def chars (s : Spelling) : List Char :=
  s.year ++ '-' :: (s.month ++ '-' :: (s.day ++ s.divider :: (s.hours ++ ':' :: (s.minutes ++
    ':' :: (s.seconds ++ (pointChars s.fraction? ++ s.zone.chars))))))

def text (s : Spelling) : String := String.ofList s.chars

structure WellFormed (s : Spelling) : Prop where
  year : Digits 4 s.year
  month : Digits 2 s.month
  day : Digits 2 s.day
  divider : s.divider = 'T' ∨ s.divider = 't' ∨ s.divider = ' '
  hours : Digits 2 s.hours
  minutes : Digits 2 s.minutes
  seconds : Digits 2 s.seconds
  fraction : ∀ digits, s.fraction? = some digits → SomeDigits digits
  zone : s.zone.WellFormed

def date (s : Spelling) : Date := ⟨number s.year, number s.month, number s.day⟩

structure InRange (s : Spelling) : Prop where
  date : s.date.Valid
  hours : number s.hours ≤ 23
  minutes : number s.minutes ≤ 59
  seconds : number s.seconds ≤ 59
  zone : s.zone.InRange

def localMicros (s : Spelling) : Int :=
  (dayCount (number s.year) (number s.month) (number s.day) - dayCount 1970 1 1) * microsPerDay +
    number s.hours * microsPerHour + number s.minutes * microsPerMinute +
    number s.seconds * microsPerSecond + (s.fraction?.elim 0 fractionMicros : Nat)

def timestamp (s : Spelling) : Timestamp :=
  ⟨s.localMicros - s.zone.offset * microsPerMinute, s.zone.offset⟩

def fixed (s : Spelling) : Fixed :=
  ⟨s.date, number s.hours, number s.minutes, number s.seconds⟩

variable {s : Spelling}

theorem WellFormed.ascii (well_formed : s.WellFormed) : s.chars.all isAscii = true := by
  have point : (pointChars s.fraction?).all isAscii = true := by
    cases there : s.fraction? with
    | none => rfl
    | some digits =>
      rw [pointChars, List.all_cons, all_ascii_of_digits (well_formed.fraction digits there).2]
      rfl
  have divider : isAscii s.divider = true := by
    rcases well_formed.divider with same | same | same <;> rw [same] <;> rfl
  simp only [chars, List.all_append, List.all_cons, all_ascii_of_digits well_formed.year.2,
    all_ascii_of_digits well_formed.month.2, all_ascii_of_digits well_formed.day.2,
    all_ascii_of_digits well_formed.hours.2, all_ascii_of_digits well_formed.minutes.2,
    all_ascii_of_digits well_formed.seconds.2, Zone.ascii well_formed.zone, point, divider]
  rfl

theorem WellFormed.fixed?_chars (well_formed : s.WellFormed) :
    fixed? s.chars = some s.fixed ∧ s.chars.drop 19 = pointChars s.fraction? ++ s.zone.chars := by
  have ascii := well_formed.ascii
  obtain ⟨y1, y2, y3, y4, year_form, year⟩ := well_formed.year.four
  obtain ⟨m1, m2, month_form, month⟩ := well_formed.month.two
  obtain ⟨d1, d2, day_form, day⟩ := well_formed.day.two
  obtain ⟨h1, h2, hours_form, hours⟩ := well_formed.hours.two
  obtain ⟨n1, n2, minutes_form, minutes⟩ := well_formed.minutes.two
  obtain ⟨s1, s2, seconds_form, seconds⟩ := well_formed.seconds.two
  have form : s.chars = y1 :: y2 :: y3 :: y4 :: '-' :: m1 :: m2 :: '-' :: d1 :: d2 ::
      s.divider :: h1 :: h2 :: ':' :: n1 :: n2 :: ':' :: s1 :: s2 ::
      (pointChars s.fraction? ++ s.zone.chars) := by
    rw [chars, year_form, month_form, day_form, hours_form, minutes_form, seconds_form]
    rfl
  constructor
  · exact fixed?_eq_some well_formed.divider year month day hours minutes seconds form ascii
  · rw [form]
    rfl

theorem inRange_iff : s.InRange ↔ s.fixed.outOfRange? = none ∧ s.zone.InRange := by
  rw [outOfRange?_eq_none]
  unfold fixed
  simp only
  constructor
  · rintro ⟨date, hours, minutes, seconds, zone⟩
    exact ⟨⟨date, by omega, by omega, by omega⟩, zone⟩
  · rintro ⟨⟨date, hours, minutes, seconds⟩, zone⟩
    exact ⟨date, by omega, by omega, by omega, zone⟩

theorem InRange.micros (range : s.InRange) :
    s.fixed.micros + (s.fraction?.elim 0 fractionMicros : Nat) = s.localMicros := by
  have month : 1 ≤ number s.month ∧ number s.month ≤ 12 := by
    obtain ⟨first, last, -⟩ := range.date
    unfold Spelling.date at first last
    simp only at first last
    omega
  have days : s.date.toDays = _ := Date.toDays_eq_sinceEpoch month
  unfold Fixed.micros localMicros
  simp only [fixed]
  rw [days]

theorem read_text (well_formed : s.WellFormed) (range : s.InRange) :
    read s.text = .ok s.timestamp := by
  obtain ⟨fixed_read, tail⟩ := well_formed.fixed?_chars
  have fraction_read := @readFraction?_pointChars s.fraction? well_formed.fraction s.zone.chars
    fun c after form => Zone.head well_formed.zone form
  rw [← tail] at fraction_read
  refine read_eq_ok.mpr ⟨s.fixed, (s.fraction?.elim 0 fractionMicros : Nat), s.zone.chars,
    s.zone.offset, ?_, (inRange_iff.mp range).1, ?_,
    Zone.readOffset?_chars well_formed.zone range.zone, ?_⟩
  · rw [text, String.toList_ofList]
    exact fixed_read
  · rw [text, String.toList_ofList]
    exact fraction_read
  · rw [range.micros]
    rfl

def ofColumns (chars : List Char) (divider : Char) (fraction? : Option (List Char)) (zone : Zone) :
    Spelling :=
  ⟨(chars.drop 0).take 4, (chars.drop 5).take 2, (chars.drop 8).take 2, divider,
    (chars.drop 11).take 2, (chars.drop 14).take 2, (chars.drop 17).take 2, fraction?, zone⟩

end Spelling

theorem drop_split {chars : List Char} {start width : Nat} {separator : Char}
    (found : chars[start + width]? = some separator) :
    chars.drop start =
      (chars.drop start).take width ++ separator :: chars.drop (start + width + 1) := by
  obtain ⟨inside, rfl⟩ := List.getElem?_eq_some_iff.mp found
  have rest := List.take_append_drop width (chars.drop start)
  rw [List.drop_drop, List.drop_eq_getElem_cons inside] at rest
  exact rest.symm

theorem digits_of_field? {chars : List Char} {start width : Nat} {n : Int}
    (inside : start + width ≤ chars.length) (read : field? chars start width = some n) :
    Digits width ((chars.drop start).take width) ∧
      n = (number ((chars.drop start).take width) : Nat) := by
  refine digits_of_number? ?_ read
  rw [List.length_take, List.length_drop]
  omega

namespace Spelling
variable {chars : List Char} {fixed : Fixed} {divider : Char} {fraction? : Option (List Char)}
  {zone : Zone}

theorem ofColumns_chars (read : fixed? chars = some fixed) (divided : chars[10]? = some divider)
    (tail : chars.drop 19 = pointChars fraction? ++ zone.chars) :
    (ofColumns chars divider fraction? zone).chars = chars := by
  obtain ⟨⟨-, -, first, second, -, fourth, fifth⟩, -⟩ := fixed?_eq_some_columns.mp read
  have year_end := @drop_split chars 0 4 '-' first
  have month_end := @drop_split chars 5 2 '-' second
  have day_end := @drop_split chars 8 2 divider divided
  have hours_end := @drop_split chars 11 2 ':' fourth
  have minutes_end := @drop_split chars 14 2 ':' fifth
  have seconds_end := List.take_append_drop 2 (chars.drop 17)
  rw [List.drop_drop] at seconds_end
  unfold ofColumns Spelling.chars
  simp only
  rw [← tail, seconds_end, ← minutes_end, ← hours_end, ← day_end, ← month_end, ← year_end,
    List.drop_zero]

theorem ofColumns_read (read : fixed? chars = some fixed)
    (divides : divider = 'T' ∨ divider = 't' ∨ divider = ' ')
    (digits : ∀ digits, fraction? = some digits → SomeDigits digits)
    (zone_formed : zone.WellFormed) :
    (ofColumns chars divider fraction? zone).WellFormed ∧
      (ofColumns chars divider fraction? zone).fixed = fixed := by
  obtain ⟨⟨-, long, -⟩, year_read, month_read, day_read, hours_read, minutes_read,
    seconds_read⟩ := fixed?_eq_some_columns.mp read
  obtain ⟨year_digits, year⟩ := digits_of_field? (by omega) year_read
  obtain ⟨month_digits, month⟩ := digits_of_field? (by omega) month_read
  obtain ⟨day_digits, day⟩ := digits_of_field? (by omega) day_read
  obtain ⟨hours_digits, hours⟩ := digits_of_field? (by omega) hours_read
  obtain ⟨minutes_digits, minutes⟩ := digits_of_field? (by omega) minutes_read
  obtain ⟨seconds_digits, seconds⟩ := digits_of_field? (by omega) seconds_read
  constructor
  · exact ⟨year_digits, month_digits, day_digits, divides, hours_digits, minutes_digits,
      seconds_digits, digits, zone_formed⟩
  · obtain ⟨⟨_, _, _⟩, _, _, _⟩ := fixed
    simp only at year month day hours minutes seconds
    rw [year, month, day, hours, minutes, seconds]
    rfl

/-- Whatever is read has been spelled. -/
theorem exists_of_read {text : String} {timestamp : Timestamp}
    (all : read text = .ok timestamp) :
    ∃ s : Spelling, s.WellFormed ∧ s.InRange ∧ s.text = text ∧ s.timestamp = timestamp := by
  obtain ⟨fixed, fraction, rest, offset, fixed_read, inside, fraction_read, offset_read, rfl⟩ :=
    read_eq_ok.mp all
  obtain ⟨fraction?, tail, digits, rfl⟩ := readFraction?_split fraction_read
  obtain ⟨zone, zone_formed, zone_range, rfl, rfl⟩ := Zone.exists_of_readOffset? offset_read
  obtain ⟨divider, divides, divided⟩ : ∃ divider,
      (divider = 'T' ∨ divider = 't' ∨ divider = ' ') ∧ text.toList[10]? = some divider := by
    rcases (fixed?_eq_some_columns.mp fixed_read).1.2.2.2.2.1 with mark | mark | mark
    · exact ⟨_, Or.inl rfl, mark⟩
    · exact ⟨_, Or.inr (Or.inl rfl), mark⟩
    · exact ⟨_, Or.inr (Or.inr rfl), mark⟩
  obtain ⟨well_formed, same⟩ := ofColumns_read fixed_read divides digits zone_formed
  have range : (ofColumns text.toList divider fraction? zone).InRange :=
    inRange_iff.mpr ⟨by rw [same]; exact inside, zone_range⟩
  refine ⟨_, well_formed, range, ?_, ?_⟩
  · rw [Spelling.text, ofColumns_chars fixed_read divided tail, String.ofList_toList]
  · rw [Spelling.timestamp, ← range.micros, same]
    rfl

end Spelling

/-- A text is read if and only if it spells a date of the calendar and a time of a day, and then as
    the instant that it spells; no text leads out of the bounds of a position or a word. -/
theorem timestamps_read_exactly (text : String) :
    parse text ≠ .error none ∧ ∀ timestamp, parse text = .ok timestamp ↔
      ∃ s : Spelling, s.WellFormed ∧ s.InRange ∧ s.text = text ∧ s.timestamp = timestamp := by
  rw [parse_eq_read]
  constructor
  · cases read text with
    | error fault => exact fun same => nomatch same
    | ok timestamp => exact fun same => nomatch same
  · intro timestamp
    rw [mapError_eq_ok]
    constructor
    · exact Spelling.exists_of_read
    · rintro ⟨s, well_formed, range, rfl, rfl⟩
      exact Spelling.read_text well_formed range

end Timestamp
end EntityCatalog
