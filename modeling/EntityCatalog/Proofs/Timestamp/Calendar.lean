import EntityCatalog.Timestamp

/- Days and dates. A count of days is a mixed-radix number of eras, centuries, cycles of four years
   and years, in which only the last year of a cycle can have a day 365. Counting one year and one
   month after the other gives the same number, for each step to the next one adds its length. -/
namespace EntityCatalog

structure DayParts where
  era : Int
  century : Int
  cycle : Int
  year : Int
  day : Int

namespace DayParts

/-- Years begin in March. The last cycle of a century has a leap day only at the end of the era. -/
structure InRange (p : DayParts) : Prop where
  century : 0 ≤ p.century ∧ p.century ≤ 3
  cycle : 0 ≤ p.cycle ∧ p.cycle ≤ 24
  year : 0 ≤ p.year ∧ p.year ≤ 3
  day : 0 ≤ p.day ∧ p.day ≤ 365
  leap : p.day = 365 → p.year = 3 ∧ (p.cycle = 24 → p.century = 3)

def dayOfEra (p : DayParts) : Int := 36524 * p.century + 1461 * p.cycle + 365 * p.year + p.day

def yearOfEra (p : DayParts) : Int := 100 * p.century + 4 * p.cycle + p.year

def days (p : DayParts) : Int := 146097 * p.era + p.dayOfEra - 719468

def month (p : DayParts) : Int := (5 * p.day + 2) / 153

def civilMonth (p : DayParts) : Int := if p.month < 10 then p.month + 3 else p.month - 9

def date (p : DayParts) : Date :=
  ⟨p.yearOfEra + p.era * 400 + if p.civilMonth ≤ 2 then 1 else 0, p.civilMonth,
    p.day - (153 * p.month + 2) / 5 + 1⟩

theorem exists_parts (days : Int) : ∃ p : DayParts, p.InRange ∧ p.days = days := by
  let rest := (days + 719468) % 146097
  let century := min 3 (rest / 36524)
  let cycle := (rest - 36524 * century) / 1461
  let inCycle := rest - 36524 * century - 1461 * cycle
  let year := min 3 (inCycle / 365)
  let p : DayParts := ⟨(days + 719468) / 146097, century, cycle, year, inCycle - 365 * year⟩
  refine ⟨p, ⟨?_, ?_, ?_, ?_, ?_⟩, ?_⟩
  all_goals simp only [p, DayParts.days, dayOfEra]
  all_goals omega

theorem dayOfEra_range {p : DayParts} (range : p.InRange) :
    0 ≤ p.dayOfEra ∧ p.dayOfEra < 146097 := by
  obtain ⟨century, cycle, year, day, leap⟩ := range
  unfold dayOfEra
  omega

theorem yearOfEra_range {p : DayParts} (range : p.InRange) :
    0 ≤ p.yearOfEra ∧ p.yearOfEra < 400 := by
  obtain ⟨century, cycle, year, -, -⟩ := range
  unfold yearOfEra
  omega

theorem centuries_of_era {p : DayParts} (range : p.InRange) :
    p.dayOfEra / 36524 - p.dayOfEra / 146096 = p.century := by
  obtain ⟨century, cycle, year, day, leap⟩ := range
  have least : 36524 * p.century ≤ p.dayOfEra := by
    unfold dayOfEra
    omega
  have most : p.dayOfEra < 36524 * (p.century + 1) ∨ p.dayOfEra = 146096 ∧ p.century = 3 := by
    unfold dayOfEra
    omega
  omega

theorem cycles_of_era {p : DayParts} (range : p.InRange) :
    p.dayOfEra / 1460 = 25 * p.century + p.cycle ∧ p.day < 365 ∨
      p.dayOfEra / 1460 = 25 * p.century + p.cycle + 1 ∧ 0 < p.day := by
  obtain ⟨century, cycle, year, day, leap⟩ := range
  unfold dayOfEra
  omega

theorem yearOfEra_eq {p : DayParts} (range : p.InRange) :
    (p.dayOfEra - p.dayOfEra / 1460 + p.dayOfEra / 36524 - p.dayOfEra / 146096) / 365 =
      p.yearOfEra := by
  -- Once the leap days are taken out, every year of the era has 365 days.
  have centuries := centuries_of_era range
  have cycles := cycles_of_era range
  have day := range.day
  have parts : p.dayOfEra = 36524 * p.century + 1461 * p.cycle + 365 * p.year + p.day := rfl
  unfold yearOfEra
  omega

theorem day_eq {p : DayParts} (range : p.InRange) :
    p.dayOfEra - (365 * p.yearOfEra + p.yearOfEra / 4 - p.yearOfEra / 100) = p.day := by
  obtain ⟨century, cycle, year, -, -⟩ := range
  unfold dayOfEra yearOfEra
  omega

theorem ofDays_days {p : DayParts} (range : p.InRange) : Date.ofDays p.days = p.date := by
  obtain ⟨low, high⟩ := dayOfEra_range range
  have shifted : p.days + 719468 = 146097 * p.era + p.dayOfEra := by
    unfold days
    omega
  have era : (p.days + 719468) / 146097 = p.era := by omega
  have rest : p.days + 719468 - p.era * 146097 = p.dayOfEra := by omega
  simp only [Date.ofDays, era, rest, yearOfEra_eq range, day_eq range]
  rfl

theorem month_range {p : DayParts} (range : p.InRange) : 0 ≤ p.month ∧ p.month ≤ 11 := by
  have day := range.day
  unfold month
  omega

theorem toDays_date {p : DayParts} (range : p.InRange) : p.date.toDays = p.days := by
  obtain ⟨low, high⟩ := yearOfEra_range range
  have months := month_range range
  have year : (if p.civilMonth ≤ 2 then p.date.year - 1 else p.date.year) =
      p.yearOfEra + p.era * 400 := by
    unfold date
    split <;> simp only <;> omega
  have era : (p.yearOfEra + p.era * 400) / 400 = p.era := by omega
  have rest : p.yearOfEra + p.era * 400 - p.era * 400 = p.yearOfEra := by omega
  have month : (p.civilMonth + 9) % 12 = p.month := by
    unfold civilMonth
    split <;> omega
  have day := day_eq range
  unfold Date.toDays
  rw [show p.date.month = p.civilMonth from rfl]
  simp only [year, era, rest, month]
  unfold date days
  simp only
  omega

/-- The year that begins in March has a day 365 when the civil year it ends in is a leap year. -/
theorem leap_iff {p : DayParts} (range : p.InRange) :
    isLeapYear (p.yearOfEra + p.era * 400 + 1) = true ↔
      p.year = 3 ∧ (p.cycle = 24 → p.century = 3) := by
  obtain ⟨century, cycle, year, -, -⟩ := range
  unfold isLeapYear yearOfEra
  simp only [Bool.or_eq_true, Bool.and_eq_true, decide_eq_true_eq, ne_eq,
    decide_not, Bool.not_eq_true', decide_eq_false_iff_not]
  omega

theorem date_valid {p : DayParts} (range : p.InRange) : p.date.Valid := by
  have day := range.day
  have leap := range.leap
  have months := month_range range
  have month : p.month = (5 * p.day + 2) / 153 := rfl
  unfold Date.Valid date
  simp only
  refine ⟨?_, ?_, ?_, ?_⟩
  · unfold civilMonth
    split <;> omega
  · unfold civilMonth
    split <;> omega
  · omega
  · unfold daysInMonth
    by_cases february : p.civilMonth = 2
    · have last : p.month = 11 := by
        unfold civilMonth at february
        split at february <;> omega
      have early : p.civilMonth ≤ 2 := by omega
      simp only [if_pos february, if_pos early, last]
      split
      · omega
      · rename_i common
        have short : p.day ≠ 365 := fun full => common ((leap_iff range).mpr (leap full))
        omega
    · rw [if_neg february]
      unfold civilMonth at february ⊢
      split <;> split at february <;> split <;> omega

/-- Months are counted from March, and before each lie (153 * month + 2) / 5 days. -/
theorem daysInMonth_le_next {year month place : Int} (range : 1 ≤ month ∧ month ≤ 12)
    (counted : place = (month + 9) % 12) :
    daysInMonth year month ≤ (153 * (place + 1) + 2) / 5 - (153 * place + 2) / 5 := by
  subst counted
  unfold daysInMonth
  split
  · rename_i february
    rw [february]
    split <;> decide
  · split
    · omega
    · have longer : month = 1 ∨ month = 3 ∨ month = 5 ∨ month = 7 ∨ month = 8 ∨ month = 10 ∨
          month = 12 := by omega
      rcases longer with rfl | rfl | rfl | rfl | rfl | rfl | rfl <;> decide

theorem leap_of_last {year month day place : Int} (month_range : 1 ≤ month ∧ month ≤ 12)
    (counted : place = (month + 9) % 12) (day_range : 1 ≤ day ∧ day ≤ daysInMonth year month)
    (last : 365 ≤ (153 * place + 2) / 5 + day - 1) :
    month = 2 ∧ isLeapYear year = true ∧ (153 * place + 2) / 5 + day - 1 = 365 := by
  -- Only the last day of a February with 29 days is the day 365 of a year that begins in March.
  have next := @daysInMonth_le_next year month place month_range counted
  have final : place = 11 := by omega
  have february : month = 2 := by omega
  subst february
  rw [daysInMonth, if_pos rfl] at day_range
  split at day_range
  · rename_i leap
    exact ⟨rfl, leap, by omega⟩
  · omega

def ofDate (date : Date) : DayParts :=
  let start := if date.month ≤ 2 then date.year - 1 else date.year
  ⟨start / 400, start % 400 / 100, start % 400 % 100 / 4, start % 400 % 100 % 4,
    (153 * ((date.month + 9) % 12) + 2) / 5 + date.day - 1⟩

theorem ofDate_inRange {date : Date} (valid : date.Valid) : (ofDate date).InRange := by
  obtain ⟨year, month, day⟩ := date
  obtain ⟨first_month, last_month, first_day, last_day⟩ := valid
  simp only at first_month last_month first_day last_day
  have last := @leap_of_last year month day _ ⟨first_month, last_month⟩ rfl ⟨first_day, last_day⟩
  constructor
  all_goals simp only [ofDate]
  · omega
  · omega
  · omega
  · constructor
    · omega
    · by_cases full : 365 ≤ (153 * ((month + 9) % 12) + 2) / 5 + day - 1
      · exact Int.le_of_eq (last full).2.2
      · omega
  · -- the 366th day of a year counted from March is February 29, so the next year is a leap year
    intro full
    obtain ⟨february, leap, -⟩ := last (Int.le_of_eq full.symm)
    rw [if_pos (by omega)]
    unfold isLeapYear at leap
    simp only [Bool.or_eq_true, Bool.and_eq_true, decide_eq_true_eq, ne_eq, decide_not,
      Bool.not_eq_true', decide_eq_false_iff_not] at leap
    omega

theorem date_ofDate {date : Date} (valid : date.Valid) : (ofDate date).date = date := by
  obtain ⟨year, month, day⟩ := date
  obtain ⟨first_month, last_month, first_day, last_day⟩ := valid
  simp only at first_month last_month first_day last_day
  have next := @daysInMonth_le_next year month _ ⟨first_month, last_month⟩ rfl
  have found : (ofDate ⟨year, month, day⟩).month = (month + 9) % 12 := by
    simp only [DayParts.month, ofDate]
    omega
  have civil : (ofDate ⟨year, month, day⟩).civilMonth = month := by
    unfold civilMonth
    rw [found]
    split <;> omega
  have start : (ofDate ⟨year, month, day⟩).yearOfEra + (ofDate ⟨year, month, day⟩).era * 400 =
      if month ≤ 2 then year - 1 else year := by
    simp only [yearOfEra, ofDate]
    omega
  have years : (if month ≤ 2 then year - 1 else year) + (if month ≤ 2 then 1 else 0) = year := by
    split <;> omega
  unfold date
  rw [start, civil, found, years]
  congr 1
  simp only [ofDate]
  omega

end DayParts

theorem Date.ofDays_valid (days : Int) : (Date.ofDays days).Valid := by
  obtain ⟨p, range, rfl⟩ := DayParts.exists_parts days
  rw [DayParts.ofDays_days range]
  exact DayParts.date_valid range

theorem Date.ofDays_toDays {date : Date} (valid : date.Valid) : Date.ofDays date.toDays = date := by
  have range := DayParts.ofDate_inRange valid
  have days := DayParts.toDays_date range
  rw [DayParts.date_ofDate valid] at days
  rw [days, DayParts.ofDays_days range, DayParts.date_ofDate valid]

theorem Date.toDays_ofDays (days : Int) : (Date.ofDays days).toDays = days := by
  obtain ⟨p, range, rfl⟩ := DayParts.exists_parts days
  rw [DayParts.ofDays_days range]
  exact DayParts.toDays_date range

/-! ### Days -/

def daysInYear (year : Int) : Int := if isLeapYear year then 366 else 365

def daysOfYears : Nat → Int
  | 0 => 0
  | years + 1 => daysOfYears years + daysInYear years

def daysOfMonths (year : Int) : Nat → Int
  | 0 => 0
  | months + 1 => daysOfMonths year months + daysInMonth year (months + 1)

def dayCount (year month day : Nat) : Int :=
  daysOfYears year + daysOfMonths year (month - 1) + (day - 1)

namespace Date

theorem toDays_day (year month day : Int) :
    toDays ⟨year, month, day⟩ = toDays ⟨year, month, 1⟩ + (day - 1) := by
  unfold toDays
  simp only
  omega

theorem toDays_next_year (year : Int) :
    toDays ⟨year + 1, 1, 1⟩ = toDays ⟨year, 1, 1⟩ + daysInYear year := by
  unfold toDays daysInYear isLeapYear
  simp only [Bool.or_eq_true, Bool.and_eq_true, decide_eq_true_eq, ne_eq, decide_not,
    Bool.not_eq_true', decide_eq_false_iff_not, show (1 : Int) ≤ 2 from by decide, if_true,
    Int.add_sub_cancel]
  split <;> omega

theorem toDays_next_month {year month : Int} (range : 1 ≤ month ∧ month ≤ 11) :
    toDays ⟨year, month + 1, 1⟩ = toDays ⟨year, month, 1⟩ + daysInMonth year month := by
  -- The formula begins its years in March: only February's next month lies in another of them.
  by_cases february : month = 2
  · subst february
    unfold toDays daysInMonth isLeapYear
    simp only [Bool.or_eq_true, Bool.and_eq_true, decide_eq_true_eq, ne_eq, decide_not,
      Bool.not_eq_true', decide_eq_false_iff_not, show ¬ (2 : Int) + 1 ≤ 2 from by decide, if_true,
      if_false, Int.le_refl]
    split <;> omega
  · have places : (153 * ((month + 1 + 9) % 12) + 2) / 5 =
        (153 * ((month + 9) % 12) + 2) / 5 + daysInMonth year month := by
      unfold daysInMonth
      rw [if_neg february]
      have months : month = 1 ∨ month = 3 ∨ month = 4 ∨ month = 5 ∨ month = 6 ∨ month = 7 ∨
          month = 8 ∨ month = 9 ∨ month = 10 ∨ month = 11 := by omega
      rcases months with rfl | rfl | rfl | rfl | rfl | rfl | rfl | rfl | rfl | rfl <;> decide
    have same_start : month + 1 ≤ 2 ↔ month ≤ 2 := by omega
    unfold toDays
    simp only [same_start, places]
    omega

theorem toDays_first_of_year (years : Nat) :
    toDays ⟨years, 1, 1⟩ = daysOfYears years + toDays ⟨0, 1, 1⟩ := by
  induction years with
  | zero => rfl
  | succ years ih =>
    rw [Int.natCast_succ, toDays_next_year, ih, daysOfYears]
    omega

theorem toDays_first_of_month (year : Int) {months : Nat} (fits : months ≤ 11) :
    toDays ⟨year, months + 1, 1⟩ = toDays ⟨year, 1, 1⟩ + daysOfMonths year months := by
  induction months with
  | zero =>
    change toDays ⟨year, 1, 1⟩ = toDays ⟨year, 1, 1⟩ + 0
    rw [Int.add_zero]
  | succ months ih =>
    rw [Int.natCast_succ, toDays_next_month (by omega), ih (by omega), daysOfMonths, Int.add_assoc]

theorem toDays_eq_dayCount {year month day : Nat} (range : 1 ≤ month ∧ month ≤ 12) :
    toDays ⟨year, month, day⟩ = dayCount year month day + toDays ⟨0, 1, 1⟩ := by
  obtain ⟨before, rfl⟩ := Nat.exists_eq_add_of_le' range.1
  rw [toDays_day, Int.natCast_succ, toDays_first_of_month year (by omega), toDays_first_of_year,
    dayCount, Nat.add_sub_cancel]
  omega

theorem toDays_eq_sinceEpoch {year month day : Nat} (range : 1 ≤ month ∧ month ≤ 12) :
    toDays ⟨year, month, day⟩ = dayCount year month day - dayCount 1970 1 1 := by
  have epoch := @toDays_eq_dayCount 1970 1 1 (by decide)
  have zero : toDays ⟨1970, 1, 1⟩ = 0 := by decide
  have start := zero.symm.trans epoch
  rw [toDays_eq_dayCount range]
  omega

end Date

end EntityCatalog
