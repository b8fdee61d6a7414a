import EntityCatalog.Decimal.Basic
import EntityCatalog.Proofs.Decimal.Value

/- Comparing decimals by their digits is comparing them as numbers. Digits that fill the same places
   are in the order of the numbers that they denote, and a number whose digits begin at a lower
   place is smaller, whatever its digits are. -/
namespace EntityCatalog

theorem compare_mul {factor : Nat} (positive : 0 < factor) (first second : Nat) :
    compare (first * factor) (second * factor) = compare first second := by
  simp only [Nat.compare_eq_ite_lt, Nat.mul_lt_mul_right positive]

theorem compare_neg (first second : Int) :
    compare (-first) (-second) = (compare first second).swap := by
  rw [Int.compare_swap]
  simp only [Int.compare_eq_ite_lt, Int.neg_lt_neg_iff]

theorem compare_cast (first second : Nat) :
    compare (first : Int) (second : Int) = compare first second := by
  simp only [Int.compare_eq_ite_lt, Nat.compare_eq_ite_lt, Int.ofNat_lt]

theorem compare_chars (first second : Char) :
    compare first second = compare first.toNat second.toNat := by
  have less : first < second ↔ first.toNat < second.toNat := UInt32.lt_iff_toNat_lt
  have same : first = second ↔ first.toNat = second.toNat := Char.toNat_inj.symm
  change compareOfLessAndEq first second = compareOfLessAndEq first.toNat second.toNat
  simp only [compareOfLessAndEq, less, same]

theorem lt_of_sign_lt {first second : Int} (less : first.sign < second.sign) : first < second := by
  have signs := Int.sign_trichotomy second
  rcases Int.sign_trichotomy first with one | zero | minus
  · omega
  · have above := Int.sign_eq_one_iff_pos.mp (show second.sign = 1 by omega)
    have level := Int.sign_eq_zero_iff_zero.mp zero
    omega
  · have below := Int.sign_eq_neg_one_iff_neg.mp minus
    have above := Int.sign_nonneg_iff.mp (show 0 ≤ second.sign by omega)
    omega

theorem compare_of_signs {first second : Int} (apart : compare first.sign second.sign ≠ .eq) :
    compare first second = compare first.sign second.sign := by
  rcases Int.lt_trichotomy first.sign second.sign with less | same | more
  · rw [Int.compare_eq_lt.mpr less, Int.compare_eq_lt.mpr (lt_of_sign_lt less)]
  · exact absurd (Int.compare_eq_eq.mpr same) apart
  · rw [Int.compare_eq_gt.mpr more, Int.compare_eq_gt.mpr (lt_of_sign_lt more)]

theorem compare_of_same_sign {first second : Int} (same : first.sign = second.sign) :
    compare first second =
      if first < 0 then (compare first.natAbs second.natAbs).swap
      else compare first.natAbs second.natAbs := by
  -- Below zero the greater absolute value is the smaller number.
  split
  · rename_i below
    have sign := Int.sign_eq_neg_one_of_neg below
    have other_below := Int.sign_eq_neg_one_iff_neg.mp (same.symm.trans sign)
    rw [← compare_cast, ← compare_neg, Int.ofNat_natAbs_of_nonpos (Int.le_of_lt below),
      Int.ofNat_natAbs_of_nonpos (Int.le_of_lt other_below), Int.neg_neg, Int.neg_neg]
  · rename_i not_below
    have level := Int.sign_nonneg_iff.mpr (Int.not_lt.mp not_below)
    have other_level : 0 ≤ second := Int.sign_nonneg_iff.mp (same ▸ level)
    rw [← compare_cast, Int.natAbs_of_nonneg (Int.not_lt.mp not_below),
      Int.natAbs_of_nonneg other_level]

theorem then_of_ne {first : Ordering} (decided : first ≠ .eq) (second : Ordering) :
    first.then second = first := by
  cases first with
  | lt => rfl
  | eq => exact absurd rfl decided
  | gt => rfl

theorem number_lt_of_head {c other : Char} {rest others : List Char}
    (length : rest.length = others.length) (restDigits : ∀ c ∈ rest, c.isDigit = true)
    (isDigit : c.isDigit = true) (less : c.toNat < other.toNat) :
    Nat.ofDigitChars 10 (c :: rest) 0 < Nat.ofDigitChars 10 (other :: others) 0 := by
  have tail := number_lt restDigits
  obtain ⟨low, -⟩ := Char.isDigit_iff_toNat.mp isDigit
  have heads : tenTo rest.length * (c.toNat - '0'.toNat + 1) ≤
      tenTo rest.length * (other.toNat - '0'.toNat) := Nat.mul_le_mul_left _ (by omega)
  rw [number_cons, number_cons, ← length]
  rw [Nat.mul_add] at heads
  omega

theorem compare_digits {left right : List Char} (length : left.length = right.length)
    (leftDigits : ∀ c ∈ left, c.isDigit = true) (rightDigits : ∀ c ∈ right, c.isDigit = true) :
    compare left right =
      compare (Nat.ofDigitChars 10 left 0) (Nat.ofDigitChars 10 right 0) := by
  -- Of two rows of digits of one length, the first difference decides.
  induction left generalizing right with
  | nil =>
    rw [List.eq_nil_of_length_eq_zero length.symm]
    rfl
  | cons c rest ih =>
    cases right with
    | nil => cases length
    | cons other others =>
      have lengths : rest.length = others.length := Nat.succ.inj length
      have restDigits : ∀ c ∈ rest, c.isDigit = true := fun d member =>
        leftDigits d (List.mem_cons_of_mem c member)
      have othersDigits : ∀ c ∈ others, c.isDigit = true := fun d member =>
        rightDigits d (List.mem_cons_of_mem other member)
      rw [List.compare_cons_cons, compare_chars]
      rcases Nat.lt_trichotomy c.toNat other.toNat with less | same | more
      · have numbers := number_lt_of_head lengths restDigits (leftDigits c (by simp)) less
        rw [Nat.compare_eq_lt.mpr less, Nat.compare_eq_lt.mpr numbers]
        rfl
      · have heads : c = other := Char.toNat_inj.mp same
        rw [Nat.compare_eq_eq.mpr same, heads, number_cons, number_cons, lengths]
        simp only [Nat.compare_eq_ite_lt, Nat.add_lt_add_iff_left]
        rw [← Nat.compare_eq_ite_lt]
        exact ih lengths restDigits othersDigits
      · have numbers := number_lt_of_head lengths.symm othersDigits (rightDigits other (by simp)) more
        rw [Nat.compare_eq_gt.mpr more, Nat.compare_eq_gt.mpr numbers]
        rfl

namespace Decimal

theorem significand_lt (d : Decimal) : d.significand.natAbs < tenTo d.digits.length :=
  (Nat.length_toDigits_le_iff (by decide) d.digits_length_pos).mp (Nat.le_refl _)

theorem le_significand {d : Decimal} (nonzero : d.significand ≠ 0) :
    tenTo (d.digits.length - 1) ≤ d.significand.natAbs := by
  by_cases single : d.digits.length - 1 = 0
  · rw [single, tenTo_zero]
    omega
  · refine Nat.le_of_not_lt fun less => ?_
    have shorter : d.digits.length ≤ d.digits.length - 1 :=
      (Nat.length_toDigits_le_iff (by decide) (Nat.pos_of_ne_zero single)).mpr less
    omega

section
variable {left right : Decimal}

/-- At the common exponent, a number whose digits begin at a lower place is smaller. -/
theorem natAbs_lt_of_leadingPlace (nonzero : right.significand ≠ 0)
    (lower : left.leadingPlace < right.leadingPlace) :
    (left.significandAt (commonExponent left right)).natAbs <
      (right.significandAt (commonExponent left right)).natAbs := by
  rw [significandAt_natAbs, significandAt_natAbs]
  generalize left_added : (left.exponent - commonExponent left right).toNat = leftZeros
  generalize right_added : (right.exponent - commonExponent left right).toNat = rightZeros
  have places : left.digits.length + leftZeros ≤ right.digits.length - 1 + rightZeros := by
    have some_digit := right.digits_length_pos
    unfold leadingPlace at lower
    unfold commonExponent at left_added right_added
    omega
  calc left.significand.natAbs * tenTo leftZeros
      < tenTo left.digits.length * tenTo leftZeros :=
        Nat.mul_lt_mul_of_pos_right left.significand_lt (tenTo_pos leftZeros)
    _ = tenTo (left.digits.length + leftZeros) := (tenTo_add _ _).symm
    _ ≤ tenTo (right.digits.length - 1 + rightZeros) := tenTo_le places
    _ = tenTo (right.digits.length - 1) * tenTo rightZeros := tenTo_add _ _
    _ ≤ right.significand.natAbs * tenTo rightZeros :=
        Nat.mul_le_mul_right _ (le_significand nonzero)

/-- Filled up to one width, the significands of numbers whose digits begin at one place are in the
    order that they have at the common exponent. -/
theorem compare_padded {width : Nat} (left_le : left.digits.length ≤ width)
    (right_le : right.digits.length ≤ width) (place : left.leadingPlace = right.leadingPlace) :
    compare (left.significand.natAbs * tenTo (width - left.digits.length))
        (right.significand.natAbs * tenTo (width - right.digits.length)) =
      compare (left.significandAt (commonExponent left right)).natAbs
        (right.significandAt (commonExponent left right)).natAbs := by
  -- The common exponent fills both up to the longer of the two; the rest of the width is the same.
  let longer := max left.digits.length right.digits.length
  have left_zeros : width - left.digits.length =
      (left.exponent - commonExponent left right).toNat + (width - longer) := by
    unfold leadingPlace at place
    unfold commonExponent longer
    omega
  have right_zeros : width - right.digits.length =
      (right.exponent - commonExponent left right).toNat + (width - longer) := by
    unfold leadingPlace at place
    unfold commonExponent longer
    omega
  rw [left_zeros, right_zeros, tenTo_add, tenTo_add, ← Nat.mul_assoc, ← Nat.mul_assoc,
    compare_mul (tenTo_pos _), significandAt_natAbs, significandAt_natAbs]

theorem compare_magnitudes {width : Nat} (left_le : left.digits.length ≤ width)
    (right_le : right.digits.length ≤ width) (left_nonzero : left.significand ≠ 0)
    (right_nonzero : right.significand ≠ 0) :
    (compare left.leadingPlace right.leadingPlace).then
        (compare (left.significand.natAbs * tenTo (width - left.digits.length))
          (right.significand.natAbs * tenTo (width - right.digits.length))) =
      compare (left.significandAt (commonExponent left right)).natAbs
        (right.significandAt (commonExponent left right)).natAbs := by
  rcases Int.lt_trichotomy left.leadingPlace right.leadingPlace with lower | same | higher
  · rw [Int.compare_eq_lt.mpr lower,
      Nat.compare_eq_lt.mpr (natAbs_lt_of_leadingPlace right_nonzero lower)]
    rfl
  · rw [Int.compare_eq_eq.mpr same]
    exact compare_padded left_le right_le same
  · have less := natAbs_lt_of_leadingPlace left_nonzero higher
    rw [commonExponent_comm right left] at less
    rw [Int.compare_eq_gt.mpr higher, Nat.compare_eq_gt.mpr less]
    rfl

theorem compareMagnitude_eq (left_nonzero : left.significand ≠ 0)
    (right_nonzero : right.significand ≠ 0) :
    compareMagnitude left right =
      compare (left.significandAt (commonExponent left right)).natAbs
        (right.significandAt (commonExponent left right)).natAbs := by
  have left_le := Nat.le_max_left left.digits.length right.digits.length
  have right_le := Nat.le_max_right left.digits.length right.digits.length
  unfold compareMagnitude
  rw [← compare_magnitudes left_le right_le left_nonzero right_nonzero]
  generalize max left.digits.length right.digits.length = width at *
  have filled : compare (filledTo width left.digits) (filledTo width right.digits) =
      compare (left.significand.natAbs * tenTo (width - left.digits.length))
        (right.significand.natAbs * tenTo (width - right.digits.length)) := by
    unfold filledTo
    rw [compare_digits _ isDigit_of_mem_filled isDigit_of_mem_filled, filled_number, filled_number]
    simp only [List.length_append, List.length_replicate]
    omega
  by_cases same : left.leadingPlace = right.leadingPlace
  · rw [if_neg (not_not_intro same), Int.compare_eq_eq.mpr same]
    exact filled
  · rw [if_pos same, then_of_ne (mt Int.compare_eq_eq.mp same)]

theorem compare_significands_of_signs
    (apart : compare left.significand.sign right.significand.sign ≠ .eq) (exponent : Int) :
    compare (left.significandAt exponent) (right.significandAt exponent) =
      compare left.significand.sign right.significand.sign := by
  rw [← significandAt_sign left exponent, ← significandAt_sign right exponent] at apart ⊢
  exact compare_of_signs apart

theorem compare_significands_of_same_sign (same : left.significand.sign = right.significand.sign)
    (exponent : Int) :
    compare (left.significandAt exponent) (right.significandAt exponent) =
      if left.significand < 0 then
        (compare (left.significandAt exponent).natAbs (right.significandAt exponent).natAbs).swap
      else compare (left.significandAt exponent).natAbs (right.significandAt exponent).natAbs := by
  rw [← significandAt_sign left exponent, ← significandAt_sign right exponent] at same
  rw [compare_of_same_sign same]
  simp only [← Int.sign_eq_neg_one_iff_neg, significandAt_sign]

theorem zero_of_same_sign (same : left.significand.sign = right.significand.sign) :
    left.significand = 0 ↔ right.significand = 0 := by
  rw [← Int.sign_eq_zero_iff_zero, same, Int.sign_eq_zero_iff_zero]

theorem compareTo_eq (left right : Decimal) :
    left.compareTo right =
      compare (left.significandAt (commonExponent left right))
        (right.significandAt (commonExponent left right)) := by
  unfold compareTo
  by_cases same : left.significand.sign = right.significand.sign
  · rw [compare_significands_of_same_sign same, Int.compare_eq_eq.mpr same]
    by_cases zero : left.significand = 0
    · have other_zero := (zero_of_same_sign same).mp zero
      simp [significandAt, zero, other_zero]
    · have other_nonzero := mt (zero_of_same_sign same).mpr zero
      rw [if_neg (by simp [zero]), compareMagnitude_eq zero other_nonzero]
  · have apart := mt Int.compare_eq_eq.mp same
    rw [if_pos (Or.inl apart), compare_significands_of_signs apart]

theorem padded_natAbs (d : Decimal) :
    d.padded.natAbs = d.significand.natAbs * tenTo (39 - d.digits.length) := by
  rw [padded, Int.natAbs_mul, Int.natAbs_natCast]

theorem padded_sign (d : Decimal) : d.padded.sign = d.significand.sign := by
  rw [padded, Int.sign_mul, Int.sign_eq_one_of_pos (tenTo_cast_pos _), Int.mul_one]

/-- The order in which sets keep their decimals is the same one. -/
theorem order_eq (left right : Decimal) :
    order left right =
      compare (left.significandAt (commonExponent left right))
        (right.significandAt (commonExponent left right)) := by
  change (compare left.significand.sign right.significand.sign).then
    ((compare (left.significand.sign * left.leadingPlace)
      (right.significand.sign * right.leadingPlace)).then
        (compare left.padded right.padded)) = _
  by_cases same : left.significand.sign = right.significand.sign
  · have padded_same : left.padded.sign = right.padded.sign := by
      rw [padded_sign, padded_sign, same]
    rw [compare_significands_of_same_sign same, Int.compare_eq_eq.mpr same,
      compare_of_same_sign padded_same, ← same]
    by_cases zero : left.significand = 0
    · have other_zero := (zero_of_same_sign same).mp zero
      simp [significandAt, padded, zero, other_zero]
    · have magnitudes := compare_magnitudes left.digits_length_le right.digits_length_le zero
        (mt (zero_of_same_sign same).mpr zero)
      rw [← magnitudes, padded_natAbs, padded_natAbs]
      by_cases below : left.significand < 0
      · have padded_below : left.padded < 0 := by
          rwa [← Int.sign_eq_neg_one_iff_neg, padded_sign, Int.sign_eq_neg_one_iff_neg]
        rw [if_pos below, if_pos padded_below, Int.sign_eq_neg_one_of_neg below]
        simp only [Int.neg_mul, Int.one_mul, compare_neg, Ordering.swap_then]
        rfl
      · have padded_above : ¬ left.padded < 0 := by
          rwa [← Int.sign_eq_neg_one_iff_neg, padded_sign, Int.sign_eq_neg_one_iff_neg]
        have above : 0 < left.significand := by omega
        rw [if_neg below, if_neg padded_above, Int.sign_eq_one_of_pos above, Int.one_mul,
          Int.one_mul]
        rfl
  · have apart := mt Int.compare_eq_eq.mp same
    rw [then_of_ne apart, compare_significands_of_signs apart]

end

theorem compareTo_eq_lt {left right : Decimal} :
    left.compareTo right = .lt ↔ left.value < right.value := by
  rw [compareTo_eq, Int.compare_eq_lt, left_value_at left right, right_value_at left right,
    scaled_lt_iff]

theorem compareTo_eq_eq {left right : Decimal} :
    left.compareTo right = .eq ↔ left.value = right.value := by
  rw [compareTo_eq, Int.compare_eq_eq, left_value_at left right, right_value_at left right,
    scaled_inj]

theorem compareTo_eq_gt {left right : Decimal} :
    left.compareTo right = .gt ↔ right.value < left.value := by
  rw [compareTo_eq, Int.compare_eq_gt, left_value_at left right, right_value_at left right,
    scaled_lt_iff]

theorem compareTo_eq_order : compareTo = order := by
  funext left right
  rw [compareTo_eq, order_eq]

/-- Comparing digits is comparing the numbers, and only equal decimals compare as equal. So the
    order is total, and it is the one that sets of decimals are kept in. -/
theorem digits_compare_as_numbers :
    (∀ left right : Decimal,
      (left.compareTo right = .lt ↔ left.value < right.value) ∧
      (left.compareTo right = .eq ↔ left.value = right.value) ∧
      (left.compareTo right = .gt ↔ right.value < left.value) ∧
      (left.compareTo right = .eq ↔ left = right)) ∧
    Std.TransCmp compareTo ∧ Std.LawfulEqCmp compareTo ∧ compareTo = order := by
  have equal {left right : Decimal} : left.compareTo right = .eq ↔ left = right := by
    rw [compareTo_eq_eq]
    exact ⟨eq_of_value_eq, congrArg value⟩
  have transitive : Std.TransCmp compareTo := compareTo_eq_order ▸ inferInstance
  refine ⟨fun left right => ?_, transitive, ?_, compareTo_eq_order⟩
  · exact ⟨compareTo_eq_lt, compareTo_eq_eq, compareTo_eq_gt, equal⟩
  · constructor
    exact equal.mp

/-- Ten is above 9.99 by the leading place, and -2 below -1.5 by the first digit. -/
example :
    ((ofParts? 10 0).bind fun a => (ofParts? 999 (-2)).map a.compareTo) = some .gt ∧
      ((ofParts? (-2) 0).bind fun a => (ofParts? (-15) (-1)).map a.compareTo) = some .lt := by
  decide +kernel

end Decimal
end EntityCatalog
