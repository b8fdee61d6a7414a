import EntityCatalog.Proofs.Decimal.Reading
import EntityCatalog.Proofs.Timestamp.Text
import EntityCatalog.Timestamp

/- Days and dates in words of 64 bits. They are the same as in unbounded numbers as long as the days,
   counted from the beginning of the era of 1970, stay in their word: no other step is the first to
   leave it. All days that such a word counts in microseconds are far inside. -/
namespace EntityCatalog

theorem long?_of_fits {n : Int} (low : -9223372036854775808 ≤ n) (high : n < 9223372036854775808) :
    long? n = some n :=
  word?_of_fits ⟨by unfold longBound; omega, by unfold longBound; omega⟩

theorem long?_eq_some {n m : Int} : long? n = some m ↔ FitsSigned longBound n ∧ n = m :=
  word?_eq_some

theorem Date.marchYear?_eq {date : Date} (year : -9223372036854775808 < date.year)
    (high : date.year < 9223372036854775808) :
    date.marchYear? = some (if date.month ≤ 2 then date.year - 1 else date.year) := by
  unfold Date.marchYear?
  split
  · exact long?_of_fits (by omega) (by omega)
  · rfl

theorem daysBefore?_eq {yearOfEra : Int} (range : 0 ≤ yearOfEra ∧ yearOfEra < 400) :
    daysBefore? yearOfEra = some (365 * yearOfEra + yearOfEra / 4 - yearOfEra / 100) := by
  unfold daysBefore?
  simp (disch := omega) only [long?_of_fits, Option.bind_eq_bind, Option.bind_some,
    Int.tdiv_eq_ediv_of_nonneg]

theorem monthDays?_eq {month : Int} (range : 0 ≤ month ∧ month ≤ 11) :
    monthDays? month = some ((153 * month + 2) / 5) := by
  unfold monthDays?
  simp (disch := omega) only [long?_of_fits, Option.bind_eq_bind, Option.bind_some,
    Int.tdiv_eq_ediv_of_nonneg]

theorem Date.toDays?_eq {date : Date} (month : 1 ≤ date.month ∧ date.month ≤ 12)
    (day : 1 ≤ date.day ∧ date.day ≤ 31) (low : -9223372036854775808 ≤ date.toDays)
    (high : date.toDays + 719468 < 9223372036854775808) : date.toDays? = some date.toDays := by
  -- An era has so many days that the years of a word of days are far from the ends of theirs.
  have years : -30000000000000000 < date.year ∧ date.year < 30000000000000000 := by
    unfold Date.toDays at low high
    simp only at low high
    split at low <;> split at high <;> omega
  unfold Date.toDays? Date.toDays
  unfold Date.toDays at low high
  rw [Date.marchYear?_eq (by omega) (by omega)]
  have march : -30000000000000001 < (if date.month ≤ 2 then date.year - 1 else date.year) ∧
      (if date.month ≤ 2 then date.year - 1 else date.year) < 30000000000000000 := by
    split <;> omega
  generalize (if date.month ≤ 2 then date.year - 1 else date.year) = start at march low high
  simp only at low high
  simp (disch := omega) only [long?_of_fits, Option.bind_eq_bind, Option.bind_some, daysBefore?_eq,
    monthDays?_eq, Int.tmod_eq_emod_of_nonneg, Int.mul_comm 365]

theorem yearOfEra?_eq {dayOfEra : Int} (range : 0 ≤ dayOfEra ∧ dayOfEra < 146097) :
    yearOfEra? dayOfEra =
      some ((dayOfEra - dayOfEra / 1460 + dayOfEra / 36524 - dayOfEra / 146096) / 365) := by
  unfold yearOfEra?
  simp (disch := omega) only [long?_of_fits, Option.bind_eq_bind, Option.bind_some,
    Int.tdiv_eq_ediv_of_nonneg]

theorem monthOfYear?_eq {dayOfYear : Int} (range : 0 ≤ dayOfYear ∧ dayOfYear ≤ 365) :
    monthOfYear? dayOfYear = some ((5 * dayOfYear + 2) / 153) := by
  unfold monthOfYear?
  simp (disch := omega) only [long?_of_fits, Option.bind_eq_bind, Option.bind_some,
    Int.tdiv_eq_ediv_of_nonneg]

theorem civilMonth?_eq {month : Int} (range : 0 ≤ month ∧ month ≤ 11) :
    civilMonth? month = some (if month < 10 then month + 3 else month - 9) := by
  unfold civilMonth?
  split <;> exact long?_of_fits (by omega) (by omega)

theorem era_words {p : DayParts} (range : p.InRange) (low : -9223372036854775808 ≤ p.days)
    (high : p.days + 719468 < 9223372036854775808) :
    p.era.natAbs ≤ 70000000000000 ∧
      long? (p.days + 719468) = some (146097 * p.era + p.dayOfEra) ∧
      (146097 * p.era + p.dayOfEra) / 146097 = p.era ∧
      long? (p.era * 146097) = some (p.era * 146097) ∧
      long? (146097 * p.era + p.dayOfEra - p.era * 146097) = some p.dayOfEra := by
  have dayOfEra := DayParts.dayOfEra_range range
  have shifted : p.days + 719468 = 146097 * p.era + p.dayOfEra := by
    unfold DayParts.days
    omega
  have rest : 146097 * p.era + p.dayOfEra - p.era * 146097 = p.dayOfEra := by omega
  have era : p.era.natAbs ≤ 70000000000000 := by omega
  rw [shifted, rest]
  exact ⟨era, long?_of_fits (by omega) (by omega), by omega, long?_of_fits (by omega) (by omega),
    long?_of_fits (by omega) (by omega)⟩

theorem day_words {p : DayParts} (range : p.InRange) :
    long? (p.dayOfEra - (365 * p.yearOfEra + p.yearOfEra / 4 - p.yearOfEra / 100)) = some p.day ∧
      monthOfYear? p.day = some p.month ∧
      long? (p.day - (153 * p.month + 2) / 5) = some (p.day - (153 * p.month + 2) / 5) ∧
      long? (p.day - (153 * p.month + 2) / 5 + 1) = some (p.day - (153 * p.month + 2) / 5 + 1) := by
  have day := range.day
  have month := DayParts.month_range range
  rw [DayParts.day_eq range]
  exact ⟨long?_of_fits (by omega) (by omega), monthOfYear?_eq day,
    long?_of_fits (by omega) (by omega), long?_of_fits (by omega) (by omega)⟩

theorem year_words {p : DayParts} (range : p.InRange) (era : p.era.natAbs ≤ 70000000000000) :
    long? (p.era * 400) = some (p.era * 400) ∧
      long? (p.yearOfEra + p.era * 400) = some (p.yearOfEra + p.era * 400) ∧
      long? (p.yearOfEra + p.era * 400 + if p.civilMonth ≤ 2 then 1 else 0) =
        some (p.yearOfEra + p.era * 400 + if p.civilMonth ≤ 2 then 1 else 0) := by
  have yearOfEra := DayParts.yearOfEra_range range
  refine ⟨long?_of_fits (by omega) (by omega), long?_of_fits (by omega) (by omega), ?_⟩
  split <;> exact long?_of_fits (by omega) (by omega)

theorem Date.ofDays?_eq {days : Int} (low : -9223372036854775808 ≤ days)
    (high : days + 719468 < 9223372036854775808) :
    Date.ofDays? days = some (Date.ofDays days) := by
  obtain ⟨p, range, rfl⟩ := DayParts.exists_parts days
  obtain ⟨era_small, shifted, era, start, rest⟩ := era_words range low high
  obtain ⟨dayOfYear, month, before, day⟩ := day_words range
  obtain ⟨first, year, civilYear⟩ := year_words range era_small
  have yearOfEra := yearOfEra?_eq (DayParts.dayOfEra_range range)
  have civil : civilMonth? p.month = some p.civilMonth :=
    civilMonth?_eq (DayParts.month_range range)
  rw [DayParts.yearOfEra_eq range] at yearOfEra
  rw [DayParts.ofDays_days range]
  unfold Date.ofDays?
  simp only [Option.bind_eq_bind, Option.bind_some, shifted, era, start, rest, yearOfEra,
    daysBefore?_eq (DayParts.yearOfEra_range range), dayOfYear, month,
    monthDays?_eq (DayParts.month_range range), before, day, civil, first, year, civilYear]
  rfl

theorem Timestamp.text?_eq {timestamp : Timestamp} (offset : timestamp.offset.natAbs ≤ 32768)
    (instant : timestamp.localMicros.natAbs < 9223372036854775808) :
    timestamp.text? = some timestamp.text := by
  -- The offset and local time are all that has to stay in a word.
  have days : (timestamp.localMicros / microsPerDay).natAbs ≤ 106751992 := by
    unfold microsPerDay microsPerHour microsPerMinute microsPerSecond
    omega
  have date := @Date.ofDays?_eq (timestamp.localMicros / microsPerDay) (by omega) (by omega)
  have shift : long? (timestamp.offset * microsPerMinute) =
      some (timestamp.offset * microsPerMinute) := by
    unfold microsPerMinute microsPerSecond
    exact long?_of_fits (by omega) (by omega)
  have localTime : long? (timestamp.micros + timestamp.offset * microsPerMinute) =
      some timestamp.localMicros := by
    have whole : timestamp.micros + timestamp.offset * microsPerMinute = timestamp.localMicros := rfl
    rw [whole]
    exact long?_of_fits (by omega) (by omega)
  unfold text?
  rw [shift, Option.bind_eq_bind, Option.bind_some, localTime, Option.bind_eq_bind,
    Option.bind_some, date]
  rfl

end EntityCatalog
