import EntityCatalog.Proofs.Results
import EntityCatalog.Proofs.Timestamp.Calendar
import EntityCatalog.Proofs.Timestamp.Reading

/- Times that can be written and read again are those of which the local year is one from 0 to 9999
   and the offset is less than a day. No other time is ever read. -/
namespace EntityCatalog

namespace DayParts

theorem last_year {p : DayParts} (range : p.InRange) :
    p.yearOfEra = 399 ∧ 306 ≤ p.day ↔ 146037 ≤ p.dayOfEra := by
  -- The last days of an era belong to the first year of the next one.
  have leap := range.leap
  obtain ⟨century, cycle, year, day, -⟩ := range
  unfold yearOfEra dayOfEra
  omega

theorem year_iff {p : DayParts} (range : p.InRange) :
    0 ≤ p.date.year ∧ p.date.year ≤ 9999 ↔ -719528 ≤ p.days ∧ p.days < 2932897 := by
  have last := last_year range
  have years := yearOfEra_range range
  have days := dayOfEra_range range
  -- January and February belong to the year that follows the one counted from March
  have early : p.civilMonth ≤ 2 ↔ 306 ≤ p.day := by
    have day := range.day
    unfold civilMonth month
    split <;> omega
  unfold date DayParts.days
  simp only [early]
  split <;> omega

end DayParts

theorem Date.ofDays_year_iff (days : Int) :
    0 ≤ (Date.ofDays days).year ∧ (Date.ofDays days).year ≤ 9999 ↔
      dayCount 0 1 1 - dayCount 1970 1 1 ≤ days ∧
        days < dayCount 10000 1 1 - dayCount 1970 1 1 := by
  obtain ⟨p, range, rfl⟩ := DayParts.exists_parts days
  have first := @Date.toDays_eq_sinceEpoch 0 1 1 (by decide)
  have last := @Date.toDays_eq_sinceEpoch 10000 1 1 (by decide)
  rw [← first, ← last, DayParts.ofDays_days range, DayParts.year_iff range]
  exact Iff.rfl

namespace Timestamp

structure Expressible (timestamp : Timestamp) : Prop where
  earliest : (dayCount 0 1 1 - dayCount 1970 1 1) * microsPerDay ≤ timestamp.localMicros
  latest : timestamp.localMicros < (dayCount 10000 1 1 - dayCount 1970 1 1) * microsPerDay
  offset : -1440 < timestamp.offset ∧ timestamp.offset < 1440

theorem expressible_iff {timestamp : Timestamp} :
    timestamp.Expressible ↔ timestamp.Writable := by
  have year := Date.ofDays_year_iff (timestamp.localMicros / microsPerDay)
  have positive : (0 : Int) < microsPerDay := by decide
  rw [Int.le_ediv_iff_mul_le positive, Int.ediv_lt_iff_lt_mul positive] at year
  constructor
  · rintro ⟨earliest, latest, offset⟩
    exact ⟨year.mpr ⟨earliest, latest⟩, by omega⟩
  · rintro ⟨years, offset⟩
    obtain ⟨earliest, latest⟩ := year.mp years
    exact ⟨earliest, latest, by omega⟩

theorem Writable.text?_eq {timestamp : Timestamp} (writable : timestamp.Writable) :
    timestamp.text? = some timestamp.text := by
  obtain ⟨earliest, latest, offset⟩ := expressible_iff.mpr writable
  have first := @Date.toDays_eq_sinceEpoch 0 1 1 (by decide)
  have last := @Date.toDays_eq_sinceEpoch 10000 1 1 (by decide)
  rw [← first] at earliest
  rw [← last] at latest
  have low : (-719528) * 86400000000 ≤ timestamp.localMicros := earliest
  have high : timestamp.localMicros < 2932897 * 86400000000 := latest
  exact Timestamp.text?_eq (by omega) (by omega)

theorem writable_of_read {text : String} {timestamp : Timestamp}
    (all : read text = .ok timestamp) : timestamp.Writable := by
  -- The date and the time of a text are those of the local time.
  obtain ⟨fixed, fraction, rest, offset, fixed_read, inside, fraction_read, offset_read, rfl⟩ :=
    read_eq_ok.mp all
  obtain ⟨valid, hours_high, minutes_high, seconds_high⟩ := outOfRange?_eq_none.mp inside
  obtain ⟨year, hours, minutes, seconds⟩ := fixed?_range fixed_read
  have fraction_range := readFraction?_range fraction_read
  have day : (fixed.micros + fraction) / microsPerDay = fixed.date.toDays := by
    unfold Fixed.micros microsPerDay microsPerHour microsPerMinute microsPerSecond
    omega
  refine ⟨?_, readOffset?_range offset_read⟩
  unfold localDate localMicros
  rw [Int.sub_add_cancel, day, Date.ofDays_toDays valid]
  exact year

theorem Writable.text_parses {timestamp : Timestamp} (writable : timestamp.Writable) :
    ∃ text, timestamp.text? = some text ∧ parse text = .ok timestamp := by
  refine ⟨timestamp.text, writable.text?_eq, ?_⟩
  rw [parse_eq_read, writable_reads_back writable]
  rfl

/-- A time comes back from its text, and no text gives a time that has none. -/
theorem timestamps_read_back :
    (∀ timestamp : Timestamp, timestamp.Expressible →
      ∃ text, timestamp.text? = some text ∧ parse text = .ok timestamp) ∧
    ∀ text timestamp, parse text = .ok timestamp → timestamp.Expressible ∧
      ∃ again, timestamp.text? = some again ∧ parse again = .ok timestamp := by
  constructor
  · intro timestamp expressible
    exact (expressible_iff.mp expressible).text_parses
  · intro text timestamp all
    rw [parse_eq_read, mapError_eq_ok] at all
    have writable := writable_of_read all
    exact ⟨expressible_iff.mpr writable, writable.text_parses⟩

theorem leap_day_reads_back :
    (Expressible ⟨-1, -90⟩ ∧ ∃ text, text? ⟨-1, -90⟩ = some text ∧ parse text = .ok ⟨-1, -90⟩) ∧
    parse "2024-02-29 23:59:59.5" = .ok ⟨1709251199500000, 0⟩ ∧
      ∃ again, text? ⟨1709251199500000, 0⟩ = some again ∧
        parse again = .ok ⟨1709251199500000, 0⟩ := by
  have expressible : Expressible ⟨-1, -90⟩ := expressible_iff.mpr ⟨by decide, by decide⟩
  have read_leap : parse "2024-02-29 23:59:59.5" = .ok ⟨1709251199500000, 0⟩ := by
    rw [parse_eq_read]
    rfl
  exact ⟨⟨expressible, timestamps_read_back.1 _ expressible⟩, read_leap,
    (timestamps_read_back.2 _ _ read_leap).2⟩

end Timestamp
end EntityCatalog
