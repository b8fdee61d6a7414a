import EntityCatalog.Proofs.Decimal.Comparison
import EntityCatalog.Proofs.Decimal.Numeral

/- What the text of a decimal denotes. Each of its forms is a numeral with the value of the decimal,
   also where that numeral could not be read again. Beside the digits of the significand it has no
   more zeros than are allowed, and a power of ten only where it would need more of them. -/
namespace EntityCatalog

namespace Numeral

structure Standard (n : Numeral) : Prop where
  well_formed : n.WellFormed
  mark : n.mark ≠ .plus
  whole : n.whole ≠ []
  fraction : n.fraction? ≠ some []
  marker : ∀ power, n.power? = some power → power.marker = 'E'

/-- How many zeros stand beside certain digits, behind them or between them and the point. A zero
    that stands in front of the point for want of other digits is none of these. -/
inductive Fills (digits : List Char) : Numeral → Nat → Prop where
  | behind (mark : Mark) (zeros : Nat) (power? : Option PowerPart) :
      Fills digits ⟨mark, digits ++ List.replicate zeros '0', none, power?⟩ zeros
  | among (mark : Mark) {whole fraction : List Char} (together : whole ++ fraction = digits)
      (power? : Option PowerPart) : Fills digits ⟨mark, whole, some fraction, power?⟩ 0
  | between (mark : Mark) (zeros : Nat) (power? : Option PowerPart) :
      Fills digits ⟨mark, ['0'], some (List.replicate zeros '0' ++ digits), power?⟩ zeros

end Numeral

namespace Decimal

def plainZeros (d : Decimal) : Nat := (max d.exponent (-d.exponent - d.digits.length)).toNat

structure WrittenAs (d : Decimal) (n : Numeral) : Prop where
  standard : n.Standard
  value : n.value = d.value
  zeros : ∃ zeros, n.Fills d.digits zeros ∧ zeros ≤ maxPadding
  power : n.power? = none ↔ d.plainZeros ≤ maxPadding

def mark (d : Decimal) : Mark := if d.isNegative then .minus else .bare

theorem mark_isMinus (d : Decimal) : d.mark.isMinus = d.isNegative := by
  unfold mark
  cases d.isNegative <;> rfl

theorem mark_ne_plus (d : Decimal) : d.mark ≠ .plus := by
  unfold mark
  cases d.isNegative <;> decide

theorem chars_eq (d : Decimal) : d.chars = d.mark.chars ++ d.unsignedChars := by
  unfold chars mark
  cases d.isNegative <;> rfl

theorem value_of_digits {d : Decimal} {n : Numeral} {zeros : Nat} (mark : n.mark = d.mark)
    (number : Nat.ofDigitChars 10 n.digits 0 = d.significand.natAbs * tenTo zeros)
    (power : n.explicit - (n.fraction.length : Int) + zeros = d.exponent) : n.value = d.value := by
  -- Zeros behind the digits and places behind the point only have to make up for each other.
  have signs : signed n.mark.isMinus (d.significand.natAbs * tenTo zeros) =
      d.significand * tenTo zeros := by
    rw [mark, mark_isMinus]
    conv => rhs; rw [← signed_natAbs d]
    unfold signed
    split
    · rw [Int.natCast_mul, Int.neg_mul]
    · rw [Int.natCast_mul]
  have lower : d.exponent = n.explicit - (n.fraction.length : Int) + zeros := power.symm
  have le : n.explicit - (n.fraction.length : Int) ≤ d.exponent := by omega
  have places : (d.exponent - (n.explicit - (n.fraction.length : Int))).toNat = zeros := by omega
  rw [Numeral.value, number, signs, value, scaled_lower le, places]

theorem powerPart_wellFormed (mark : Mark) (n : Nat) :
    (PowerPart.mk 'E' mark (Nat.toDigits 10 n)).WellFormed :=
  ⟨Or.inr rfl, fun _ member => Nat.isDigit_of_mem_toDigits (by decide) (by decide) member,
    Nat.toDigits_ne_nil⟩

theorem writtenAs_scaled {d : Decimal} (many : maxPadding < d.plainZeros) {mark : Mark} {n : Nat}
    (power : signed mark.isMinus n = d.exponent) :
    d.WrittenAs ⟨d.mark, d.digits, none, some ⟨'E', mark, Nat.toDigits 10 n⟩⟩ := by
  have whole : Numeral.digits ⟨d.mark, d.digits, none, some ⟨'E', mark, Nat.toDigits 10 n⟩⟩ =
      d.digits := List.append_nil d.digits
  constructor
  · refine ⟨⟨?_, ?_, fun power found => ?_⟩, d.mark_ne_plus, digits_ne_nil d, nofun,
      fun power found => ?_⟩
    · rw [whole]
      exact isDigit_of_mem_digits
    · rw [whole]
      exact digits_ne_nil d
    · cases found
      exact powerPart_wellFormed mark n
    · cases found
      rfl
  · have number := digits_plain d
    rw [← whole] at number
    refine value_of_digits rfl number ?_
    simp only [Numeral.explicit, Numeral.fraction, Option.map_some, Option.getD_some,
      Option.getD_none, PowerPart.number, Nat.ofDigitChars_ten_toDigits, List.length_nil, power]
    omega
  · refine ⟨0, ?_, Nat.zero_le _⟩
    have behind : Numeral.Fills d.digits ⟨d.mark, d.digits ++ List.replicate 0 '0', none,
        some ⟨'E', mark, Nat.toDigits 10 n⟩⟩ 0 := .behind d.mark 0 _
    rwa [List.replicate_zero, List.append_nil] at behind
  · constructor
    · intro none
      cases none
    · intro few
      omega

theorem writtenAs_filled {d : Decimal} (nonneg : 0 ≤ d.exponent)
    (few : d.exponent.toNat ≤ maxPadding) :
    d.WrittenAs ⟨d.mark, d.digits ++ List.replicate d.exponent.toNat '0', none, none⟩ := by
  have whole : Numeral.digits ⟨d.mark, d.digits ++ List.replicate d.exponent.toNat '0', none, none⟩ =
      d.digits ++ List.replicate d.exponent.toNat '0' := List.append_nil _
  have some_digit := List.append_ne_nil_of_left_ne_nil (digits_ne_nil d)
    (List.replicate d.exponent.toNat '0')
  constructor
  · refine ⟨⟨?_, ?_, nofun⟩, d.mark_ne_plus, some_digit, nofun, nofun⟩
    · rw [whole]
      exact isDigit_of_mem_filled
    · rw [whole]
      exact some_digit
  · have number := filled_number d d.exponent.toNat
    rw [← whole] at number
    refine value_of_digits rfl number ?_
    simp only [Numeral.explicit, Numeral.fraction, Option.map_none, Option.getD_none,
      List.length_nil]
    omega
  · exact ⟨_, Numeral.Fills.behind d.mark d.exponent.toNat none, few⟩
  · have some_digit := d.digits_length_pos
    unfold plainZeros
    constructor
    · intro _
      omega
    · exact fun _ => rfl

theorem writtenAs_pointed {d : Decimal} {whole fraction : List Char} {zeros : Nat}
    (allDigits : ∀ c ∈ whole ++ fraction, c.isDigit = true) (some_whole : whole ≠ [])
    (some_fraction : fraction ≠ [])
    (number : Nat.ofDigitChars 10 (whole ++ fraction) 0 = d.significand.natAbs * tenTo 0)
    (power : d.exponent = -(fraction.length : Int))
    (fills : Numeral.Fills d.digits ⟨d.mark, whole, some fraction, none⟩ zeros)
    (few : zeros ≤ maxPadding) (needed : d.plainZeros ≤ maxPadding) :
    d.WrittenAs ⟨d.mark, whole, some fraction, none⟩ := by
  constructor
  · refine ⟨⟨allDigits, List.append_ne_nil_of_left_ne_nil some_whole _, nofun⟩, d.mark_ne_plus,
      some_whole, fun none => some_fraction (Option.some.inj none), nofun⟩
  · refine value_of_digits rfl number ?_
    simp only [Numeral.explicit, Numeral.fraction, Option.map_none, Option.getD_none,
      Option.getD_some]
    omega
  · exact ⟨zeros, fills, few⟩
  · exact ⟨fun _ => needed, fun _ => rfl⟩

theorem writtenAs_split {d : Decimal} {whole : Nat} (some_whole : 0 < whole)
    (some_fraction : whole < d.digits.length)
    (power : d.exponent = -((d.digits.length - whole : Nat) : Int)) :
    d.WrittenAs ⟨d.mark, d.digits.take whole, some (d.digits.drop whole), none⟩ := by
  have together := List.take_append_drop whole d.digits
  refine writtenAs_pointed ?_ (take_digits_ne_nil d some_whole) ?_ ?_ ?_ (.among d.mark together none) (Nat.zero_le _) ?_
  · rw [together]
    exact isDigit_of_mem_digits
  · intro empty
    have reached := List.drop_eq_nil_iff.mp empty
    omega
  · rw [together]
    exact digits_plain d
  · rw [List.length_drop]
    exact power
  · unfold plainZeros
    omega

theorem writtenAs_fraction {d : Decimal} {fill : Nat}
    (power : d.exponent = -((fill + d.digits.length : Nat) : Int)) (few : fill ≤ maxPadding) :
    d.WrittenAs ⟨d.mark, ['0'], some (List.replicate fill '0' ++ d.digits), none⟩ := by
  have all : ['0'] ++ (List.replicate fill '0' ++ d.digits) =
      List.replicate (fill + 1) '0' ++ d.digits := by
    rw [List.replicate_succ]
    rfl
  refine writtenAs_pointed ?_ (List.cons_ne_nil _ _) ?_ ?_ ?_ (.between d.mark fill none) few ?_
  · rw [all]
    intro c member
    rcases List.mem_append.mp member with one | other
    · exact isDigit_of_mem_zeros c one
    · exact isDigit_of_mem_digits c other
  · exact List.append_ne_nil_of_right_ne_nil _ (digits_ne_nil d)
  · rw [all, Nat.ofDigitChars_append, ofDigitChars_zeros, Nat.mul_zero]
    exact digits_plain d
  · rw [List.length_append, List.length_replicate]
    exact power
  · unfold plainZeros
    omega

theorem exists_writtenAs (d : Decimal) : ∃ n : Numeral, d.WrittenAs n ∧ n.chars = d.chars := by
  have some_digit := d.digits_length_pos
  rw [chars_eq]
  unfold unsignedChars
  split
  · rename_i nonneg
    simp only
    split
    · rename_i many
      have power : signed Mark.plus.isMinus d.exponent.toNat = d.exponent := by
        simp [signed, Mark.isMinus]
        omega
      refine ⟨_, writtenAs_scaled ?_ power, rfl⟩
      unfold plainZeros
      omega
    · rename_i few
      refine ⟨_, writtenAs_filled nonneg (Nat.le_of_not_lt few), ?_⟩
      simp [Numeral.chars, pointChars, powerChars]
  · rename_i negative
    simp only
    split
    · rename_i some_whole
      have split : d.WrittenAs _ := writtenAs_split some_whole (by omega) (by omega)
      refine ⟨_, split, ?_⟩
      simp [Numeral.chars, pointChars, powerChars]
    · rename_i no_whole
      split
      · rename_i many
        have power : signed Mark.minus.isMinus (-d.exponent).toNat = d.exponent := by
          simp [signed, Mark.isMinus]
          omega
        refine ⟨_, writtenAs_scaled ?_ power, rfl⟩
        unfold plainZeros
        omega
      · rename_i few
        have power : d.exponent =
            -(((-d.exponent).toNat - d.digits.length + d.digits.length : Nat) : Int) := by omega
        refine ⟨_, writtenAs_fraction power (Nat.le_of_not_lt few), ?_⟩
        simp [Numeral.chars, pointChars, powerChars]

/-- The text of a decimal denotes its value, and so it is the text of no other decimal. It is written
    plainly unless that takes too many zeros. -/
theorem text_denotes_value (d : Decimal) :
    (∃ n : Numeral, n.text = d.text ∧ d.WrittenAs n) ∧
      (∀ n : Numeral, n.WellFormed → n.text = d.text → n.value = d.value) ∧
      ∀ other : Decimal, other.text = d.text → other = d := by
  obtain ⟨n, written, same⟩ := exists_writtenAs d
  have denoted (m : Numeral) (well_formed : m.WellFormed) (same_text : m.text = d.text) :
      m.value = d.value := by
    have chars := String.ofList_inj.mp same_text
    rw [Numeral.eq_of_chars well_formed written.standard.well_formed (chars.trans same.symm)]
    exact written.value
  refine ⟨⟨n, congrArg String.ofList same, written⟩, denoted, fun other same_text => ?_⟩
  obtain ⟨m, other_written, other_same⟩ := exists_writtenAs other
  have value := denoted m other_written.standard.well_formed
    ((congrArg String.ofList other_same).trans same_text)
  exact eq_of_value_eq (other_written.value.symm.trans value)

/-- As many zeros as are allowed, and one more. -/
example : (ofParts? (-1) (-33)).map text = some "-0.000000000000000000000000000000001" ∧
    (ofParts? (-1) (-34)).map text = some "-1E-34" := by decide +kernel

end Decimal
end EntityCatalog
