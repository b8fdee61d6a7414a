import EntityCatalog.Guarded
import EntityCatalog.Timestamp

/- Reading a timestamp from the bytes of its text, with every position and every number checked for
   its bounds: the columns of the fixed part, the digits of a fraction, what is left behind them, and
   the words in which the instant is computed. -/
namespace EntityCatalog
namespace Timestamp
open Guarded

def isDigitByte (byte : UInt8) : Bool := 48 ≤ byte && byte ≤ 57

/-- The number that digits denote; nothing for no digits, for other bytes, and for a number that
    leaves its word. -/
def wordOf? (digits : Bytes) : Option Int :=
  if digits ≠ [] ∧ digits.all isDigitByte then
    long? (digits.foldl (fun n byte => 10 * n + (byte.toNat - 48)) 0 : Nat)
  else none

def column (text : String) (start stop : Nat) : Guarded Fault Int := do
  let digits ← within (slice? (utf8 text) start stop)
  orRefused (.malformed text) (wordOf? digits)

def separators : List (Nat × List Char) :=
  [(4, ['-']), (7, ['-']), (10, ['T', 't', ' ']), (13, [':']), (16, [':'])]

def separated (bytes : Bytes) : List (Nat × List Char) → Guarded Fault Bool
  | [] => .ok true
  | (position, allowed) :: rest => do
      let byte ← within bytes[position]?
      if byte ∈ allowed.map Char.toUInt8 then separated bytes rest else .ok false

def fixedPart (text : String) : Guarded Fault Fixed :=
  let bytes := utf8 text
  if bytes.all (· < 128) = false ∨ bytes.length < 19 then refused (.malformed text)
  else do
    if ← separated bytes separators then
      let year ← column text 0 4
      let month ← column text 5 7
      let day ← column text 8 10
      let hours ← column text 11 13
      let minutes ← column text 14 16
      let seconds ← column text 17 19
      .ok ⟨⟨year, month, day⟩, hours, minutes, seconds⟩
    else refused (.malformed text)

def fewer? (n less : Nat) : Option Nat := if less ≤ n then some (n - less) else none

def millionths (text : String) (digits : Bytes) : Guarded Fault Int := do
  let number ← orRefused (.malformed text) (wordOf? digits)
  let power ← within (long? (tenTo (← within (fewer? 6 digits.length))))
  within (long? (number * power))

def fractionPart (text : String) (rest : Bytes) : Guarded Fault (Int × Bytes) :=
  match rest with
  | [] => .ok (0, rest)
  | first :: after =>
      if first ≠ '.'.toUInt8 then .ok (0, rest)
      else
        let stop := (after.takeWhile isDigitByte).length
        if stop = 0 then refused (.malformed text)
        else do
          let micros ← millionths text (← within (slice? after 0 (min stop 6)))
          .ok (micros, ← within (slice? after stop after.length))

def signFactor? (sign : UInt8) : Option Int :=
  if sign = '+'.toUInt8 then some 1 else if sign = '-'.toUInt8 then some (-1) else none

/-- A sign, two digits, a colon and two digits. The number of minutes is cut down to a word of 16
    bits in the end. -/
def signedOffset (rest : Bytes) : Guarded Fault Int :=
  let fault := Fault.invalidOffset ((ofUtf8? rest).getD "")
  if rest.length ≠ 6 then refused fault
  else do
    if (← within rest[3]?) ≠ ':'.toUInt8 then refused fault
    else
      let sign ← orRefused fault (signFactor? (← within rest[0]?))
      let hours ← orRefused fault (wordOf? (← within (slice? rest 1 3)))
      let minutes ← orRefused fault (wordOf? (← within (slice? rest 4 6)))
      if 23 < hours ∨ 59 < minutes then refused fault
      else
        let total ← within (long? ((← within (long? (hours * 60))) + minutes))
        .ok (Int16.ofInt (← within (long? (sign * total)))).toInt

def offsetPart (rest : Bytes) : Guarded Fault Int :=
  if rest = [] ∨ rest = ['Z'.toUInt8] ∨ rest = ['z'.toUInt8] then .ok 0 else signedOffset rest

def Fixed.micros? (fixed : Fixed) (fraction : Int) : Option Int := do
  let days ← long? ((← fixed.date.toDays?) * microsPerDay)
  let hours ← long? (days + (← long? (fixed.hours * microsPerHour)))
  let minutes ← long? (hours + (← long? (fixed.minutes * microsPerMinute)))
  let seconds ← long? (minutes + (← long? (fixed.seconds * microsPerSecond)))
  long? (seconds + fraction)

def parse (text : String) : Guarded Fault Timestamp := do
  let fixed ← fixedPart text
  match fixed.outOfRange? with
  | some field => refused (.outOfRange field text)
  | none =>
      let tail ← within (slice? (utf8 text) 19 (utf8 text).length)
      let (fraction, rest) ← fractionPart text tail
      let offset ← offsetPart rest
      let localTime ← within (fixed.micros? fraction)
      let shift ← within (long? (offset * microsPerMinute))
      .ok ⟨← within (long? (localTime - shift)), offset⟩

end Timestamp
end EntityCatalog
