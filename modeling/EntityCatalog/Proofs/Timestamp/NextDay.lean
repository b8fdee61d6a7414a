import EntityCatalog.Proofs.Timestamp.Calendar
import EntityCatalog.Proofs.Timestamp.Words

/- Days and dates tell the same. In words of 64 bits every day that can be counted has one date, which
   the calendar has, and every such date has one day; the date that follows it has the day after.
   What cannot be counted gives nothing, and that are only the last days of a word. -/
namespace EntityCatalog
namespace Date

def next (date : Date) : Date :=
  if date.day < daysInMonth date.year date.month then ⟨date.year, date.month, date.day + 1⟩
  else if date.month < 12 then ⟨date.year, date.month + 1, 1⟩
  else ⟨date.year + 1, 1, 1⟩

theorem daysInMonth_pos (year month : Int) : 1 ≤ daysInMonth year month := by
  unfold daysInMonth
  split
  · split <;> decide
  · split <;> decide

theorem next_valid {date : Date} (valid : date.Valid) : date.next.Valid := by
  obtain ⟨first_month, last_month, first_day, last_day⟩ := valid
  unfold next
  split
  · rename_i inside
    exact ⟨first_month, last_month, by simp only; omega, inside⟩
  · split
    · exact ⟨by simp only; omega, by simp only; omega, Int.le_refl 1, daysInMonth_pos _ _⟩
    · have january : (1 : Int) ≤ 12 := by decide
      exact ⟨Int.le_refl 1, january, Int.le_refl 1, daysInMonth_pos _ _⟩

theorem daysOfMonths_year (year : Int) : daysOfMonths year 11 + 31 = daysInYear year := by
  simp only [daysOfMonths, daysInMonth, daysInYear]
  cases isLeapYear year <;> decide

theorem toDays_december (year : Int) :
    toDays ⟨year + 1, 1, 1⟩ = toDays ⟨year, 12, 1⟩ + 31 := by
  have months : toDays ⟨year, 12, 1⟩ = toDays ⟨year, 1, 1⟩ + daysOfMonths year 11 :=
    @toDays_first_of_month year 11 (by decide)
  have year_length := daysOfMonths_year year
  have next_year := toDays_next_year year
  omega

theorem toDays_next {date : Date} (valid : date.Valid) : date.next.toDays = date.toDays + 1 := by
  obtain ⟨year, month, day⟩ := date
  obtain ⟨first_month, last_month, first_day, last_day⟩ := valid
  simp only at first_month last_month first_day last_day
  have counted := toDays_day year month day
  unfold next
  simp only
  split
  · have later := toDays_day year month (day + 1)
    omega
  · split
    · have following := @toDays_next_month year month (by omega)
      omega
    · have december : month = 12 := by omega
      subst december
      have following := toDays_december year
      have longest : daysInMonth year 12 = 31 := rfl
      omega

theorem ofDays?_eq_some {days : Int} (counted : FitsSigned longBound days) {date : Date} :
    ofDays? days = some date ↔ FitsSigned longBound (days + 719468) ∧ ofDays days = date := by
  -- The first step adds the days from the beginning of the era of 1970; every later one stays.
  constructor
  · intro found
    have shifted : FitsSigned longBound (days + 719468) := by
      unfold ofDays? at found
      simp only [Option.bind_eq_bind, Option.bind_eq_some_iff, long?_eq_some] at found
      obtain ⟨-, ⟨shifted, -⟩, -⟩ := found
      exact shifted
    rw [ofDays?_eq counted.1 shifted.2] at found
    exact ⟨shifted, Option.some.inj found⟩
  · rintro ⟨shifted, rfl⟩
    exact ofDays?_eq counted.1 shifted.2

theorem of_marchYear? {date : Date} {start : Int} (found : date.marchYear? = some start) :
    start = if date.month ≤ 2 then date.year - 1 else date.year := by
  unfold marchYear? at found
  split
  · rename_i early
    rw [if_pos early] at found
    exact (long?_eq_some.mp found).2.symm
  · rename_i late
    rw [if_neg late] at found
    exact (Option.some.inj found).symm

theorem of_toDays? {date : Date} {days : Int} (month : 1 ≤ date.month ∧ date.month ≤ 12)
    (found : date.toDays? = some days) :
    date.toDays = days ∧ FitsSigned longBound days ∧ FitsSigned longBound (days + 719468) := by
  -- The last two steps are the days from the beginning of the first era and those since 1970.
  have place : Int.tmod (date.month + 9) 12 = (date.month + 9) % 12 :=
    Int.tmod_eq_emod_of_nonneg (by omega)
  unfold toDays? at found
  simp only [Option.bind_eq_bind, Option.bind_eq_some_iff, long?_eq_some] at found
  obtain ⟨start, march, -, ⟨-, rfl⟩, -, ⟨-, rfl⟩, -, ⟨-, rfl⟩, monthsBefore, months, -, ⟨-, rfl⟩, -,
    ⟨-, rfl⟩, yearsBefore, years, -, ⟨-, rfl⟩, -, ⟨-, rfl⟩, sum, ⟨sum_fits, whole⟩, fits, rfl⟩ := found
  rw [place, monthDays?_eq (by omega), Option.some.injEq] at months
  rw [daysBefore?_eq (by omega), Option.some.injEq] at years
  have counted : date.toDays = sum - 719468 := by
    unfold toDays
    rw [← of_marchYear? march]
    simp only
    omega
  rw [Int.sub_add_cancel]
  exact ⟨counted, fits, whole ▸ sum_fits⟩

theorem toDays?_eq_some {date : Date} (valid : date.Valid) {days : Int} :
    date.toDays? = some days ↔
      date.toDays = days ∧ FitsSigned longBound days ∧ FitsSigned longBound (days + 719468) := by
  obtain ⟨first_month, last_month, first_day, last_day⟩ := valid
  constructor
  · exact of_toDays? ⟨first_month, last_month⟩
  · rintro ⟨rfl, counted, shifted⟩
    exact toDays?_eq ⟨first_month, last_month⟩
      ⟨first_day, Int.le_trans last_day (Timestamp.daysInMonth_le _ _)⟩ counted.1 shifted.2

theorem ofDays_eq_iff {days : Int} {date : Date} :
    ofDays days = date ↔ date.Valid ∧ date.toDays = days := by
  constructor
  · rintro rfl
    exact ⟨ofDays_valid days, toDays_ofDays days⟩
  · rintro ⟨valid, rfl⟩
    exact ofDays_toDays valid

theorem days_of_micros {micros : Int} (fits : FitsSigned longBound micros) :
    FitsSigned longBound (micros / microsPerDay) ∧
      FitsSigned longBound (micros / microsPerDay + 719468) := by
  -- A word of microseconds holds fewer days than a word of days by far.
  obtain ⟨low, high⟩ := fits
  unfold FitsSigned
  simp only [longBound, microsPerDay, microsPerHour, microsPerMinute, microsPerSecond] at low high ⊢
  omega

theorem exists_ofDays? {days : Int} (counted : FitsSigned longBound days) :
    (∃ date, ofDays? days = some date) ↔ FitsSigned longBound (days + 719468) := by
  constructor
  · rintro ⟨date, found⟩
    exact ((ofDays?_eq_some counted).mp found).1
  · intro shifted
    exact ⟨ofDays days, (ofDays?_eq_some counted).mpr ⟨shifted, rfl⟩⟩

theorem ofDays?_iff_toDays? (days : Int) (date : Date) :
    FitsSigned longBound days ∧ ofDays? days = some date ↔
      date.Valid ∧ toDays? date = some days := by
  constructor
  · rintro ⟨counted, found⟩
    obtain ⟨shifted, same⟩ := (ofDays?_eq_some counted).mp found
    obtain ⟨valid, back⟩ := ofDays_eq_iff.mp same
    exact ⟨valid, (toDays?_eq_some valid).mpr ⟨back, counted, shifted⟩⟩
  · rintro ⟨valid, found⟩
    obtain ⟨same, counted, shifted⟩ := (toDays?_eq_some valid).mp found
    exact ⟨counted, (ofDays?_eq_some counted).mpr ⟨shifted, ofDays_eq_iff.mpr ⟨valid, same⟩⟩⟩

theorem toDays?_next {date : Date} {days : Int} (valid : date.Valid)
    (found : toDays? date = some days) :
    toDays? date.next =
      if FitsSigned longBound (days + 1 + 719468) then some (days + 1) else none := by
  have following := next_valid valid
  obtain ⟨same, counted, -⟩ := (toDays?_eq_some valid).mp found
  have day_after : date.next.toDays = days + 1 := by rw [toDays_next valid, same]
  split
  · rename_i fits
    have later : FitsSigned longBound (days + 1) := by
      obtain ⟨low, -⟩ := counted
      obtain ⟨-, high⟩ := fits
      unfold FitsSigned
      omega
    exact (toDays?_eq_some following).mpr ⟨day_after, later, fits⟩
  · rename_i large
    refine Option.eq_none_iff_forall_ne_some.mpr fun other counted_on => ?_
    obtain ⟨whole, -, fits⟩ := (toDays?_eq_some following).mp counted_on
    rw [← whole, day_after] at fits
    exact large fits

/-- Days that are words and real dates are counted to each other, the epoch as 0, from each date to
    the next as one more. Only the first step from a day to its date can leave the word, and no
    number of microseconds comes near it. -/
theorem dates_count_days :
    (∀ days date, FitsSigned longBound days ∧ ofDays? days = some date ↔
      date.Valid ∧ toDays? date = some days) ∧
    (∀ days, FitsSigned longBound days →
      ((∃ date, ofDays? days = some date) ↔ FitsSigned longBound (days + 719468))) ∧
    (∀ micros, FitsSigned longBound micros →
      FitsSigned longBound (micros / microsPerDay) ∧
        ∃ date, ofDays? (micros / microsPerDay) = some date) ∧
    toDays? ⟨1970, 1, 1⟩ = some 0 ∧
    ∀ date days, date.Valid → toDays? date = some days →
      date.next.Valid ∧ toDays? date.next =
        if FitsSigned longBound (days + 1 + 719468) then some (days + 1) else none := by
  refine ⟨ofDays?_iff_toDays?, fun days => exists_ofDays?, ?_, rfl, ?_⟩
  · intro micros fits
    obtain ⟨counted, shifted⟩ := days_of_micros fits
    exact ⟨counted, (exists_ofDays? counted).mpr shifted⟩
  · intro date days valid found
    exact ⟨next_valid valid, toDays?_next valid found⟩

theorem extreme_dates_counted :
    (Valid ⟨-4, 2, 29⟩ ∧ toDays? ⟨-4, 2, 29⟩ = some (-720930) ∧
      ofDays? (-720930) = some ⟨-4, 2, 29⟩ ∧ toDays? (next ⟨-4, 2, 29⟩) = some (-720929)) ∧
    (FitsSigned longBound 9223372036854775807 ∧
      ∃ date, ofDays? (9223372036854775807 / microsPerDay) = some date) ∧
    FitsSigned longBound 9223372036854056339 ∧
      (∃ date, ofDays? 9223372036854056339 = some date) ∧
      Valid ⟨25252734927766554, 9, 25⟩ ∧ toDays? (next ⟨25252734927766554, 9, 25⟩) = none := by
  -- A leap day before year 0, the day of the last microsecond, and the last day that has a date.
  obtain ⟨both_ways, countable, instants, -, following⟩ := dates_count_days
  have leap_day : Valid ⟨-4, 2, 29⟩ := by decide
  have leap_count : toDays? ⟨-4, 2, 29⟩ = some (-720930) := by rfl
  have last_instant : FitsSigned longBound 9223372036854775807 := by decide
  have last : FitsSigned longBound 9223372036854056339 := by decide
  have last_date : Valid ⟨25252734927766554, 9, 25⟩ := by decide
  refine ⟨⟨leap_day, leap_count, ?_, ?_⟩, ⟨last_instant, (instants _ last_instant).2⟩, last, ?_,
    last_date, ?_⟩
  · exact ((both_ways _ _).mpr ⟨leap_day, leap_count⟩).2
  · exact (following _ _ leap_day leap_count).2
  · exact (countable _ last).mpr (by decide)
  · exact (following _ 9223372036854056339 last_date rfl).2

end Date
end EntityCatalog
