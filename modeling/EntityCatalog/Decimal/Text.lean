import EntityCatalog.Decimal.Basic
import EntityCatalog.Guarded
import EntityCatalog.Text

/- The written form of decimals. Plain notation has at most 32 filler zeros; beyond that the number
   is written as digits and a power of ten. Reading takes either notation, with any number of
   insignificant zeros, in words of fixed size: each step that may leave its word is checked, and the
   count of pending zeros stays at its greatest number when it gets there. The bytes of a text are read
   with its position, and a cut inside a character gives neither a number nor a fault. -/
namespace EntityCatalog

/-! ### Writing -/

def maxPadding : Nat := 32

inductive Decimal.Fault where
  | empty
  | invalidCharacter (position : Nat) (found : Char)
  | overflow
  deriving DecidableEq

def Decimal.Fault.message : Decimal.Fault → String
  | .empty => "empty decimal literal"
  | .invalidCharacter position found =>
      "invalid character " ++ quotedChar found ++ " at position " ++ toString position
  | .overflow => "decimal literal exceeds supported precision"

def Decimal.unsignedChars (d : Decimal) : List Char :=
  if 0 ≤ d.exponent then
    let zeros := d.exponent.toNat
    if maxPadding < zeros then d.digits ++ 'E' :: '+' :: Nat.toDigits 10 zeros
    else d.digits ++ List.replicate zeros '0'
  else
    let scale := (-d.exponent).toNat
    let whole := d.digits.length - scale
    if 0 < whole then d.digits.take whole ++ '.' :: d.digits.drop whole
    else if maxPadding < scale - d.digits.length then
      d.digits ++ 'E' :: '-' :: Nat.toDigits 10 scale
    else '0' :: '.' :: (List.replicate (scale - d.digits.length) '0' ++ d.digits)

def Decimal.chars (d : Decimal) : List Char :=
  if d.isNegative then '-' :: d.unsignedChars else d.unsignedChars

def Decimal.text (d : Decimal) : String := String.ofList d.chars

namespace Decimal

/-- Splits one leading sign off; the flag tells a minus. -/
def splitSign : List Char → Bool × List Char
  | '-' :: rest => (true, rest)
  | '+' :: rest => (false, rest)
  | chars => (false, chars)

def signed (negative : Bool) (n : Nat) : Int := if negative then -n else n

end Decimal

/-! ### Reading the characters of a literal -/

def word? (bound : Nat) : Int → Option Int
  | .ofNat n => if n < bound then some (.ofNat n) else none
  | .negSucc n => if n < bound then some (.negSucc n) else none

def longBound : Nat := 9223372036854775808

/-- The greatest number of an unsigned word of 32 bits. -/
def greatestCount : Nat := 4294967295

def nextCount (count : Nat) : Nat := min (count + 1) greatestCount

namespace Decimal

/-- What has been read of a literal. The exponent only counts digits behind the point, and no text
    has as many of them as its word can count. -/
structure WordScan where
  significand : Int
  exponent : Int
  digitCount : Nat
  pointSeen : Bool
  pendingZeros : Nat

namespace WordScan

def start : WordScan := ⟨0, 0, 0, false, 0⟩

def shifted (words : WordScan) : Int :=
  if words.pointSeen then words.exponent - 1 else words.exponent

def zeroDigit (words : WordScan) : WordScan :=
  { words with
    exponent := words.shifted
    digitCount := words.digitCount + 1
    pendingZeros := if words.significand ≠ 0 then nextCount words.pendingZeros
      else words.pendingZeros }

/-- Nothing when one of the three steps leaves its word. -/
def nonzeroDigit? (words : WordScan) (digit : Nat) : Option WordScan :=
  (word? significandBound (tenTo (nextCount words.pendingZeros))).bind fun power =>
    (word? significandBound (words.significand * power)).bind fun raised =>
      (word? significandBound (raised + digit)).map fun significand =>
        { words with
          significand := significand
          exponent := words.shifted
          digitCount := words.digitCount + 1
          pendingZeros := 0 }

end WordScan

def gatherDigits (words : WordScan) (position : Nat) :
    List Char → Except Fault (WordScan × Nat × List Char)
  | [] => .ok (words, position, [])
  | c :: rest =>
      if c = '0' then gatherDigits words.zeroDigit (position + 1) rest
      else if c.isDigit then
        match words.nonzeroDigit? (c.toNat - '0'.toNat) with
        | some next => gatherDigits next (position + 1) rest
        | none => .error .overflow
      else if c = '.' ∧ words.pointSeen = false then
        gatherDigits { words with pointSeen := true } (position + 1) rest
      else if (c = 'e' ∨ c = 'E') ∧ 0 < words.digitCount then .ok (words, position, c :: rest)
      else .error (.invalidCharacter position c)

def faultAt (position : Nat) : List Char → Fault
  | [] => .empty
  | found :: _ => .invalidCharacter position found

/-- Adds an exponent part, from its marker on, to the exponent that the digits call for. -/
def addExponent (position : Nat) (exponent : Int) (chars : List Char) : Except Fault Int :=
  match chars with
  | [] => .ok exponent
  | _ :: rest =>
      let (negative, digits) := splitSign rest
      if digits = [] ∨ digits.all Char.isDigit = false then .error (faultAt position chars)
      else
        match word? longBound (signed negative (Nat.ofDigitChars 10 digits 0)) with
        | none => .error .overflow
        | some explicit =>
            match word? longBound (exponent + explicit) with
            | none => .error .overflow
            | some total => .ok total

def parseUnsigned (negative : Bool) (position : Nat) (chars : List Char) : Except Fault Decimal :=
  match gatherDigits .start position chars with
  | .error fault => .error fault
  | .ok (words, stop, rest) =>
      if words.digitCount = 0 then .error (faultAt stop rest)
      else
        match addExponent stop (words.exponent + words.pendingZeros) rest with
        | .error fault => .error fault
        | .ok total =>
            match word? exponentBound total with
            | none => .error .overflow
            | some exponent =>
                match ofParts? (if negative then -words.significand else words.significand)
                    exponent with
                | some d => .ok d
                | none => .error .overflow

def parse (text : String) : Except Fault Decimal :=
  if text.toList = [] then .error .empty
  else
    let (negative, rest) := splitSign text.toList
    parseUnsigned negative (text.toList.length - rest.length) rest

end Decimal

/-! ### Reading the bytes of a literal -/

namespace Decimal
open Guarded

def strayAt {α : Type} (text : String) (position : Nat) : Guarded Fault α := do
  let rest ← within (sliceText? text position (utf8 text).length)
  refused (.invalidCharacter position (rest.toList.head?.getD '?'))

def faultFrom {α : Type} (text : String) (position : Nat) : Guarded Fault α := do
  let rest ← within
    (sliceText? text (min position (utf8 text).length) (utf8 text).length)
  refused (faultAt position rest.toList)

/-- Reads on, from a position whose byte is the first of the list, up to the end or to an exponent
    marker after a digit. -/
def gatherBytes (text : String) (words : WordScan) (position : Nat) :
    Bytes → Guarded Fault (WordScan × Nat)
  | [] => .ok (words, position)
  | byte :: rest =>
      if byte = '0'.toUInt8 then gatherBytes text words.zeroDigit (position + 1) rest
      else if byteIn Char.isDigit byte then
        match words.nonzeroDigit? (byte.toNat - '0'.toNat) with
        | some next => gatherBytes text next (position + 1) rest
        | none => refused .overflow
      else if byte = '.'.toUInt8 ∧ words.pointSeen = false then
        gatherBytes text { words with pointSeen := true } (position + 1) rest
      else if (byte = 'e'.toUInt8 ∨ byte = 'E'.toUInt8) ∧ 0 < words.digitCount then
        .ok (words, position)
      else strayAt text position

def exponentPart (text : String) (position : Nat) (exponent : Int) : Guarded Fault Int :=
  if (utf8 text).length ≤ position then .ok exponent
  else do
    let rest ← within (sliceText? text (position + 1) (utf8 text).length)
    let (negative, digits) := splitSign rest.toList
    if digits = [] ∨ (utf8 (String.ofList digits)).all (byteIn Char.isDigit) = false then
      faultFrom text position
    else
      let explicit ← orRefused .overflow
        (word? longBound (signed negative (Nat.ofDigitChars 10 digits 0)))
      orRefused .overflow (word? longBound (exponent + explicit))

def signByte (first : UInt8) : Bool × Nat :=
  if first = '-'.toUInt8 then (true, 1) else if first = '+'.toUInt8 then (false, 1) else (false, 0)

def parseFrom (text : String) (negative : Bool) (position : Nat) : Guarded Fault Decimal := do
  let (words, stop) ← gatherBytes text .start position ((utf8 text).drop position)
  if words.digitCount = 0 then faultFrom text stop
  else
    let total ← exponentPart text stop (words.exponent + words.pendingZeros)
    let exponent ← orRefused .overflow (word? exponentBound total)
    orRefused .overflow
      (ofParts? (if negative then -words.significand else words.significand) exponent)

def parseBytewise (text : String) : Guarded Fault Decimal :=
  match utf8 text with
  | [] => refused .empty
  | first :: _ =>
      let (negative, position) := signByte first
      parseFrom text negative position

end Decimal

end EntityCatalog
