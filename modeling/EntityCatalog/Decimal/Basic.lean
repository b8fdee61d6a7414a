/- Exact decimal numbers, a 128-bit significand times a power of ten with a 32-bit exponent.
   Each number has one form: zero has exponent 0, and otherwise the significand ends in a nonzero
   digit unless the exponent can rise no further. Two numbers are compared by their digits, so that
   neither has to be brought to the exponent of the other: what decides is the sign, then the place at
   which the digits begin, then the digits, read as text. -/
namespace EntityCatalog

def tenTo (places : Nat) : Nat := Nat.pow 10 places

@[simp] theorem tenTo_zero : tenTo 0 = 1 := rfl

theorem tenTo_succ (places : Nat) : tenTo (places + 1) = tenTo places * 10 := rfl

/-- The range of a signed word, from the negated bound up to the number before the bound. -/
def FitsSigned (bound : Nat) (n : Int) : Prop := -(bound : Int) ≤ n ∧ n < bound

instance (bound : Nat) (n : Int) : Decidable (FitsSigned bound n) :=
  inferInstanceAs (Decidable (_ ∧ _))

/-- The bound of a signed word of 128 bits. -/
def significandBound : Nat := 170141183460469231731687303715884105728

def exponentBound : Nat := 2147483648

def maxExponent : Int := 2147483647

structure Decimal where
  significand : Int
  exponent : Int
  significand_fits : FitsSigned significandBound significand
  exponent_fits : FitsSigned exponentBound exponent
  zero_form : significand = 0 → exponent = 0
  last_digit : significand % 10 = 0 → significand = 0 ∨ exponent = maxExponent
  deriving DecidableEq

def Decimal.zero : Decimal :=
  ⟨0, 0, by decide, by decide, fun _ => rfl, fun _ => Or.inl rfl⟩

/-- Moves trailing zero digits into the exponent, at most `room` of them. -/
def stripTens : Nat → Int → Int → Int × Int
  | 0, significand, exponent => (significand, exponent)
  | room + 1, significand, exponent =>
      if significand % 10 = 0 then stripTens room (significand / 10) (exponent + 1)
      else (significand, exponent)

@[simp] theorem stripTens_zero (significand exponent : Int) :
    stripTens 0 significand exponent = (significand, exponent) := rfl

@[simp] theorem stripTens_tens {significand : Int} (tens : significand % 10 = 0) (room : Nat)
    (exponent : Int) :
    stripTens (room + 1) significand exponent =
      stripTens room (significand / 10) (exponent + 1) := if_pos tens

@[simp] theorem stripTens_of_last_digit {significand : Int} (last : significand % 10 ≠ 0)
    (room : Nat) (exponent : Int) :
    stripTens room significand exponent = (significand, exponent) := by
  cases room with
  | zero => rfl
  | succ room => rw [stripTens, if_neg last]

theorem stripTens_ne_zero (room : Nat) {significand : Int} (nonzero : significand ≠ 0)
    (exponent : Int) : (stripTens room significand exponent).1 ≠ 0 := by
  induction room generalizing significand exponent with
  | zero => exact nonzero
  | succ room ih =>
    by_cases tens : significand % 10 = 0
    · rw [stripTens_tens tens]
      exact ih (by omega) _
    · rw [stripTens_of_last_digit tens]
      exact nonzero

theorem stripTens_fits (room bound : Nat) {significand : Int}
    (fits : FitsSigned bound significand) (exponent : Int) :
    FitsSigned bound (stripTens room significand exponent).1 := by
  induction room generalizing significand exponent with
  | zero => exact fits
  | succ room ih =>
    by_cases tens : significand % 10 = 0
    · rw [stripTens_tens tens]
      have lowest := fits.1
      have highest := fits.2
      exact ih ⟨by omega, by omega⟩ _
    · rw [stripTens_of_last_digit tens]
      exact fits

theorem stripTens_exponent (room : Nat) (significand exponent : Int) :
    exponent ≤ (stripTens room significand exponent).2 ∧
      (stripTens room significand exponent).2 ≤ exponent + room := by
  induction room generalizing significand exponent with
  | zero => simp
  | succ room ih =>
    by_cases tens : significand % 10 = 0
    · have further := ih (significand / 10) (exponent + 1)
      rw [stripTens_tens tens]
      omega
    · rw [stripTens_of_last_digit tens]
      simp only
      omega

theorem stripTens_last_digit (room : Nat) (significand exponent : Int) :
    (stripTens room significand exponent).1 % 10 ≠ 0 ∨
      (stripTens room significand exponent).2 = exponent + room := by
  induction room generalizing significand exponent with
  | zero => simp
  | succ room ih =>
    by_cases tens : significand % 10 = 0
    · have further := ih (significand / 10) (exponent + 1)
      rw [stripTens_tens tens]
      omega
    · rw [stripTens_of_last_digit tens]
      exact Or.inl tens

theorem stripTens_value (room : Nat) (significand exponent : Int) :
    significand = (stripTens room significand exponent).1 *
      tenTo ((stripTens room significand exponent).2 - exponent).toNat := by
  -- The value is kept: each digit dropped is a factor of ten that the exponent takes over.
  induction room generalizing significand exponent with
  | zero => simp
  | succ room ih =>
    by_cases tens : significand % 10 = 0
    · rw [stripTens_tens tens]
      have rest := ih (significand / 10) (exponent + 1)
      have bound := (stripTens_exponent room (significand / 10) (exponent + 1)).1
      have step : ((stripTens room (significand / 10) (exponent + 1)).2 - exponent).toNat =
          ((stripTens room (significand / 10) (exponent + 1)).2 - (exponent + 1)).toNat + 1 := by
        omega
      rw [step, tenTo_succ, Int.natCast_mul, ← Int.mul_assoc, ← rest]
      omega
    · simp [tens]

namespace Decimal

/-- The unique form of a number given by a significand and an exponent in range. -/
def normal (significand exponent : Int) (significand_fits : FitsSigned significandBound significand)
    (exponent_fits : FitsSigned exponentBound exponent) : Decimal :=
  if nonzero : significand = 0 then zero
  else
    let room := (maxExponent - exponent).toNat
    have room_eq : exponent + room = maxExponent := by
      have := exponent_fits.2
      simp only [room, maxExponent, exponentBound] at *
      omega
    ⟨(stripTens room significand exponent).1, (stripTens room significand exponent).2,
      stripTens_fits room significandBound significand_fits exponent,
      by
        have := stripTens_exponent room significand exponent
        have := exponent_fits.1
        simp only [FitsSigned, maxExponent, exponentBound] at *
        omega,
      fun isZero => absurd isZero (stripTens_ne_zero room nonzero exponent),
      fun last => by
        have := stripTens_last_digit room significand exponent
        omega⟩

def ofParts? (significand exponent : Int) : Option Decimal :=
  if fits : FitsSigned significandBound significand ∧ FitsSigned exponentBound exponent then
    some (normal significand exponent fits.1 fits.2)
  else none

/-- Nothing for the one significand whose negation is out of range. -/
def neg? (d : Decimal) : Option Decimal :=
  if fits : FitsSigned significandBound (-d.significand) then
    some ⟨-d.significand, d.exponent, fits, d.exponent_fits,
      fun isZero => d.zero_form (by omega),
      fun last => by have := d.last_digit (by omega); omega⟩
  else none

/-- The significand at a smaller exponent, if it stays in range. No power of ten above the 38th
    is in range. -/
def alignedTo? (exponent : Int) (d : Decimal) : Option Int :=
  let shift := (d.exponent - exponent).toNat
  if shift ≤ 38 ∧ FitsSigned significandBound (d.significand * tenTo shift) then
    some (d.significand * tenTo shift)
  else none

/-- The exact sum, or nothing when aligning the terms or adding them leaves the range. -/
def add? (left right : Decimal) : Option Decimal :=
  if left.significand = 0 then some right
  else if right.significand = 0 then some left
  else
    let exponent := min left.exponent right.exponent
    match left.alignedTo? exponent, right.alignedTo? exponent with
    | some first, some second => ofParts? (first + second) exponent
    | _, _ => none

def sub? (left right : Decimal) : Option Decimal := right.neg?.bind left.add?

def isNegative (d : Decimal) : Bool := d.significand < 0

def isZero (d : Decimal) : Bool := d.significand = 0

def digits (d : Decimal) : List Char := Nat.toDigits 10 d.significand.natAbs

def leadingPlace (d : Decimal) : Int := d.exponent + d.digits.length

/-- The significand padded to 39 digits, as many as any significand has. -/
def padded (d : Decimal) : Int := d.significand * tenTo (39 - d.digits.length)

def order : Decimal → Decimal → Ordering :=
  compareLex (compareOn fun d => d.significand.sign)
    (compareLex (compareOn fun d => d.significand.sign * d.leadingPlace) (compareOn padded))

instance : Std.TransCmp order :=
  inferInstanceAs (Std.TransCmp (compareLex _ (compareLex _ _)))

instance : Inhabited Decimal := ⟨zero⟩

end Decimal

/-! ### Comparison -/

def filledTo (width : Nat) (digits : List Char) : List Char :=
  digits ++ List.replicate (width - digits.length) '0'

namespace Decimal

/-- Compares absolute values, of numbers that are not zero. -/
def compareMagnitude (left right : Decimal) : Ordering :=
  if left.leadingPlace ≠ right.leadingPlace then compare left.leadingPlace right.leadingPlace
  else
    let width := max left.digits.length right.digits.length
    compare (filledTo width left.digits) (filledTo width right.digits)

def compareTo (left right : Decimal) : Ordering :=
  let signs := compare left.significand.sign right.significand.sign
  if signs ≠ .eq ∨ left.significand = 0 then signs
  else if left.significand < 0 then (compareMagnitude left right).swap
  else compareMagnitude left right

end Decimal

end EntityCatalog
