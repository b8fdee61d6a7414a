import EntityCatalog.Decimal.Text
import EntityCatalog.Text

/- Timestamps and their written form, a date, a time of day and a distance from universal time.
   Writing drops trailing zeros of the fraction; reading cuts a fraction after six digits. Days are
   counted from 1970-01-01 in the proleptic Gregorian calendar; the count goes through eras of 400
   years whose years begin in March, so that the leap day comes last. -/
namespace EntityCatalog

/-! ### The calendar -/

structure Date where
  year : Int
  month : Int
  day : Int
  deriving DecidableEq, Repr

def isLeapYear (year : Int) : Bool :=
  (year % 4 = 0 && year % 100 ≠ 0) || year % 400 = 0

def daysInMonth (year month : Int) : Int :=
  if month = 2 then if isLeapYear year then 29 else 28
  else if month = 4 ∨ month = 6 ∨ month = 9 ∨ month = 11 then 30
  else 31

def Date.Valid (date : Date) : Prop :=
  1 ≤ date.month ∧ date.month ≤ 12 ∧ 1 ≤ date.day ∧ date.day ≤ daysInMonth date.year date.month

instance (date : Date) : Decidable date.Valid :=
  inferInstanceAs (Decidable (_ ∧ _ ∧ _ ∧ _))

/-- Days since 1970-01-01. The March-based month has 153 days in every five, and the era begins on
    1 March of a year divisible by 400. -/
def Date.toDays (date : Date) : Int :=
  let year := if date.month ≤ 2 then date.year - 1 else date.year
  let era := year / 400
  let yearOfEra := year - era * 400
  let month := (date.month + 9) % 12
  let dayOfYear := (153 * month + 2) / 5 + date.day - 1
  let dayOfEra := yearOfEra * 365 + yearOfEra / 4 - yearOfEra / 100 + dayOfYear
  era * 146097 + dayOfEra - 719468

def Date.ofDays (days : Int) : Date :=
  let shifted := days + 719468
  let era := shifted / 146097
  let dayOfEra := shifted - era * 146097
  let yearOfEra := (dayOfEra - dayOfEra / 1460 + dayOfEra / 36524 - dayOfEra / 146096) / 365
  let dayOfYear := dayOfEra - (365 * yearOfEra + yearOfEra / 4 - yearOfEra / 100)
  let month := (5 * dayOfYear + 2) / 153
  let civilMonth := if month < 10 then month + 3 else month - 9
  ⟨yearOfEra + era * 400 + if civilMonth ≤ 2 then 1 else 0, civilMonth,
    dayOfYear - (153 * month + 2) / 5 + 1⟩

/-! ### Texts -/

/-- Microseconds since 1970-01-01T00:00:00Z, and the offset of local time in minutes. -/
structure Timestamp where
  micros : Int
  offset : Int
  deriving DecidableEq

def microsPerSecond : Int := 1000000
def microsPerMinute : Int := 60 * microsPerSecond
def microsPerHour : Int := 60 * microsPerMinute
def microsPerDay : Int := 24 * microsPerHour

inductive Timestamp.Fault where
  | malformed (text : String)
  | outOfRange (field text : String)
  | invalidOffset (text : String)
  deriving DecidableEq

def Timestamp.Fault.message : Timestamp.Fault → String
  | .malformed text => "not an RFC 3339 datetime: " ++ quoted text
  | .outOfRange field text => field ++ " out of range in " ++ quoted text
  | .invalidOffset text => "invalid UTC offset " ++ quoted text

namespace Timestamp

def paddedDigits (width n : Nat) : List Char :=
  let digits := Nat.toDigits 10 n
  List.replicate (width - digits.length) '0' ++ digits

/-- Four places, of which the sign of a year before 0 takes one. -/
def yearChars (year : Int) : List Char :=
  if year < 0 then '-' :: paddedDigits 3 year.natAbs else paddedDigits 4 year.natAbs

def fractionChars (micros : Nat) : List Char :=
  if micros = 0 then []
  else '.' :: ((paddedDigits 6 micros).reverse.dropWhile (· = '0')).reverse

def offsetChars (offset : Int) : List Char :=
  if offset = 0 then ['Z']
  else
    (if offset < 0 then '-' else '+') ::
      (paddedDigits 2 (offset.natAbs / 60) ++ ':' :: paddedDigits 2 (offset.natAbs % 60))

def chars (timestamp : Timestamp) : List Char :=
  let instant := timestamp.micros + timestamp.offset * microsPerMinute
  let date := Date.ofDays (instant / microsPerDay)
  let time := instant % microsPerDay
  yearChars date.year ++ '-' :: (paddedDigits 2 date.month.toNat ++
    '-' :: (paddedDigits 2 date.day.toNat ++
    'T' :: (paddedDigits 2 (time / microsPerHour).toNat ++
    ':' :: (paddedDigits 2 (time % microsPerHour / microsPerMinute).toNat ++
    ':' :: (paddedDigits 2 (time % microsPerMinute / microsPerSecond).toNat ++
    (fractionChars (time % microsPerSecond).toNat ++ offsetChars timestamp.offset))))))

def text (timestamp : Timestamp) : String := String.ofList timestamp.chars

def isAscii (c : Char) : Bool := c.toNat < 128

def number? (chars : List Char) : Option Int :=
  if chars ≠ [] ∧ chars.all Char.isDigit then some (Nat.ofDigitChars 10 chars 0) else none

def field? (chars : List Char) (start width : Nat) : Option Int :=
  number? ((chars.drop start).take width)

structure Fixed where
  date : Date
  hours : Int
  minutes : Int
  seconds : Int

/-- Only the widths and the separators are checked here. -/
def fixed? (chars : List Char) : Option Fixed :=
  if chars.all isAscii ∧ 19 ≤ chars.length ∧ chars[4]? = some '-' ∧ chars[7]? = some '-' ∧
      (chars[10]? = some 'T' ∨ chars[10]? = some 't' ∨ chars[10]? = some ' ') ∧
      chars[13]? = some ':' ∧ chars[16]? = some ':' then do
    let year ← field? chars 0 4
    let month ← field? chars 5 2
    let day ← field? chars 8 2
    let hours ← field? chars 11 2
    let minutes ← field? chars 14 2
    let seconds ← field? chars 17 2
    some ⟨⟨year, month, day⟩, hours, minutes, seconds⟩
  else none

def Fixed.outOfRange? (fixed : Fixed) : Option String :=
  if fixed.date.month < 1 ∨ 12 < fixed.date.month then some "month"
  else if fixed.date.day < 1 ∨ daysInMonth fixed.date.year fixed.date.month < fixed.date.day then
    some "day"
  else if 23 < fixed.hours then some "hours"
  else if 59 < fixed.minutes then some "minutes"
  else if 59 < fixed.seconds then some "seconds"
  else none

def Fixed.micros (fixed : Fixed) : Int :=
  fixed.date.toDays * microsPerDay + fixed.hours * microsPerHour +
    fixed.minutes * microsPerMinute + fixed.seconds * microsPerSecond

/-- Reads a point and a fraction of a second, if there is one; nothing when a point stands alone.
    The first six digits count, and zeros stand for those that are missing. -/
def readFraction? : List Char → Option (Int × List Char)
  | '.' :: rest =>
      let digits := rest.takeWhile Char.isDigit
      if digits = [] then none
      else
        (number? ((digits ++ List.replicate 6 '0').take 6)).map fun micros =>
          (micros, rest.dropWhile Char.isDigit)
  | chars => some (0, chars)

/-- The offset that follows the time; its absence is offset 0. -/
def readOffset? : List Char → Option Int
  | [] => some 0
  | ['Z'] => some 0
  | ['z'] => some 0
  | [sign, h1, h2, ':', m1, m2] =>
      match number? [h1, h2], number? [m1, m2] with
      | some hours, some minutes =>
          if 23 < hours ∨ 59 < minutes then none
          else if sign = '+' then some (hours * 60 + minutes)
          else if sign = '-' then some (-(hours * 60 + minutes))
          else none
      | _, _ => none
  | _ => none

def read (text : String) : Except Fault Timestamp :=
  match fixed? text.toList with
  | none => .error (.malformed text)
  | some fixed =>
      match fixed.outOfRange? with
      | some field => .error (.outOfRange field text)
      | none =>
          match readFraction? (text.toList.drop 19) with
          | none => .error (.malformed text)
          | some (fraction, rest) =>
              match readOffset? rest with
              | none => .error (.invalidOffset (String.ofList rest))
              | some offset =>
                  .ok ⟨fixed.micros + fraction - offset * microsPerMinute, offset⟩

end Timestamp

/-! ### Days and texts in words of 64 bits -/

def long? (n : Int) : Option Int := word? longBound n

def Date.marchYear? (date : Date) : Option Int :=
  if date.month ≤ 2 then long? (date.year - 1) else some date.year

def daysBefore? (yearOfEra : Int) : Option Int := do
  let yearDays ← long? ((← long? (365 * yearOfEra)) + Int.tdiv yearOfEra 4)
  long? (yearDays - Int.tdiv yearOfEra 100)

def monthDays? (month : Int) : Option Int := do
  some (Int.tdiv (← long? ((← long? (153 * month)) + 2)) 5)

/-- Eras are found by rounding down, and all other quotients by rounding toward zero. -/
def Date.toDays? (date : Date) : Option Int := do
  let year ← date.marchYear?
  let era := year / 400
  let yearOfEra ← long? (year - (← long? (era * 400)))
  let month := Int.tmod (← long? (date.month + 9)) 12
  let dayOfYear ← long? ((← long? ((← monthDays? month) + date.day)) - 1)
  let dayOfEra ← long? ((← daysBefore? yearOfEra) + dayOfYear)
  long? ((← long? ((← long? (era * 146097)) + dayOfEra)) - 719468)

/-- Without their leap days all years have 365 days. -/
def yearOfEra? (dayOfEra : Int) : Option Int := do
  let cycles ← long? (dayOfEra - Int.tdiv dayOfEra 1460)
  let centuries ← long? (cycles + Int.tdiv dayOfEra 36524)
  some (Int.tdiv (← long? (centuries - Int.tdiv dayOfEra 146096)) 365)

def monthOfYear? (dayOfYear : Int) : Option Int := do
  some (Int.tdiv (← long? ((← long? (5 * dayOfYear)) + 2)) 153)

def civilMonth? (month : Int) : Option Int :=
  if month < 10 then long? (month + 3) else long? (month - 9)

def Date.ofDays? (days : Int) : Option Date := do
  let shifted ← long? (days + 719468)
  let era := shifted / 146097
  let dayOfEra ← long? (shifted - (← long? (era * 146097)))
  let yearOfEra ← yearOfEra? dayOfEra
  let dayOfYear ← long? (dayOfEra - (← daysBefore? yearOfEra))
  let month ← monthOfYear? dayOfYear
  let day ← long? ((← long? (dayOfYear - (← monthDays? month))) + 1)
  let civilMonth ← civilMonth? month
  let year ← long? (yearOfEra + (← long? (era * 400)))
  some ⟨← long? (year + if civilMonth ≤ 2 then 1 else 0), civilMonth, day⟩

def Timestamp.text? (timestamp : Timestamp) : Option String := do
  let shift ← long? (timestamp.offset * microsPerMinute)
  let instant ← long? (timestamp.micros + shift)
  let date ← Date.ofDays? (instant / microsPerDay)
  let time := instant % microsPerDay
  some (String.ofList (yearChars date.year ++ '-' :: (paddedDigits 2 date.month.toNat ++
    '-' :: (paddedDigits 2 date.day.toNat ++
    'T' :: (paddedDigits 2 (time / microsPerHour).toNat ++
    ':' :: (paddedDigits 2 (time % microsPerHour / microsPerMinute).toNat ++
    ':' :: (paddedDigits 2 (time % microsPerMinute / microsPerSecond).toNat ++
    (fractionChars (time % microsPerSecond).toNat ++ offsetChars timestamp.offset))))))))

end EntityCatalog
