import EntityCatalog.Proofs.Decimal.Sums

/- Sums and differences that are taken back. A sum may have a higher exponent than its terms, and
   the way back is then checked at a higher exponent than the way there. There all significands are
   shorter, so whatever was in range stays in range. Only the negation of the term asks for more, and
   it is out of range for the lowest significand alone. -/
namespace EntityCatalog

theorem fits_of_scaled {bound places : Nat} {n : Int} (fits : FitsSigned bound (n * tenTo places)) :
    FitsSigned bound n := by
  have grown : n.natAbs ≤ (n * tenTo places).natAbs := by
    rw [Int.natAbs_mul, Int.natAbs_natCast]
    exact Nat.le_mul_of_pos_right _ (tenTo_pos places)
  unfold FitsSigned at *
  rcases Int.le_total 0 n with above | below
  · have kept : 0 ≤ n * tenTo places := Int.mul_nonneg above (Int.le_of_lt (tenTo_cast_pos places))
    omega
  · have kept : n * tenTo places ≤ 0 :=
      Int.mul_nonpos_of_nonpos_of_nonneg below (Int.le_of_lt (tenTo_cast_pos places))
    omega

theorem neg_scaled_fits {places : Nat} {n : Int} (negation : FitsSigned significandBound (-n))
    (fits : FitsSigned significandBound (n * tenTo places)) :
    FitsSigned significandBound (-n * tenTo places) := by
  -- A number with a zero behind its digits is not the lowest significand.
  cases places with
  | zero => simpa using negation
  | succ places =>
    have zero_behind : n * tenTo (places + 1) = n * tenTo places * 10 := by
      rw [tenTo_succ, Int.natCast_mul, ← Int.mul_assoc]
      rfl
    rw [Int.neg_mul]
    unfold FitsSigned significandBound at *
    omega

namespace Decimal

theorem significandAt_lower {d : Decimal} {low high : Int} (le : low ≤ high)
    (high_le : high ≤ d.exponent) :
    d.significandAt low = d.significandAt high * tenTo (high - low).toNat := by
  have places : (d.exponent - low).toNat = (d.exponent - high).toNat + (high - low).toNat := by
    omega
  rw [significandAt, significandAt, places, tenTo_add, Int.natCast_mul, Int.mul_assoc]

/-- Two terms may be checked at any exponent that is not above theirs. -/
theorem sumFits_of_lower {left right : Decimal} {exponent : Int} (left_le : exponent ≤ left.exponent)
    (right_le : exponent ≤ right.exponent)
    (left_fits : FitsSigned significandBound (left.significandAt exponent))
    (right_fits : FitsSigned significandBound (right.significandAt exponent))
    (sum_fits : FitsSigned significandBound
      (left.significandAt exponent + right.significandAt exponent)) : SumFits left right := by
  have le : exponent ≤ commonExponent left right := Int.le_min.mpr ⟨left_le, right_le⟩
  rw [significandAt_lower le (Int.min_le_left _ _)] at left_fits sum_fits
  rw [significandAt_lower le (Int.min_le_right _ _)] at right_fits sum_fits
  rw [← Int.add_mul] at sum_fits
  exact ⟨fits_of_scaled left_fits, fits_of_scaled right_fits, fits_of_scaled sum_fits⟩

theorem significandAt_of_value {d : Decimal} {significand exponent : Int}
    (fits : FitsSigned significandBound significand) (power_fits : FitsSigned exponentBound exponent)
    (nonzero : d.significand ≠ 0) (value : d.value = scaled significand exponent) :
    exponent ≤ d.exponent ∧ d.significandAt exponent = significand := by
  -- The normal form of a number that is not zero moves zeros into the exponent, never out of it.
  have made := ofParts?_eq_some.mpr ⟨fits, power_fits, value⟩
  have le : exponent ≤ d.exponent := by
    rw [ofParts?, dif_pos ⟨fits, power_fits⟩, Option.some.injEq] at made
    subst made
    unfold normal at nonzero ⊢
    split at nonzero
    · exact absurd rfl nonzero
    · rename_i kept
      rw [dif_neg kept]
      exact (stripTens_exponent _ significand exponent).1
  rw [value_at le, scaled_inj] at value
  exact ⟨le, value⟩

theorem exponent_of_sum {left right sum : Decimal} (right_nonzero : right.significand ≠ 0)
    (sum_nonzero : sum.significand ≠ 0) (added : left.add? right = some sum) :
    ∃ exponent first, exponent ≤ right.exponent ∧ exponent ≤ sum.exponent ∧
      FitsSigned significandBound (right.significandAt exponent) ∧
      FitsSigned significandBound (sum.significandAt exponent) ∧
      FitsSigned significandBound first ∧ left.value = scaled first exponent := by
  by_cases left_zero : left.significand = 0
  · rw [add?_of_left_zero left_zero, Option.some.injEq] at added
    subst added
    have at_own : right.significandAt right.exponent = right.significand := by
      simp [significandAt]
    refine ⟨right.exponent, 0, Int.le_refl _, Int.le_refl _, ?_, ?_, by decide, ?_⟩
    · exact at_own ▸ right.significand_fits
    · exact at_own ▸ right.significand_fits
    · rw [value_of_significand_zero left_zero, scaled_zero]
  · obtain ⟨⟨left_fits, right_fits, sum_fits⟩, value⟩ :=
      (add?_eq_some_of_nonzero left_zero right_nonzero).mp added
    rw [left_value_at left right, right_value_at left right, ← scaled_add] at value
    obtain ⟨le, same⟩ :=
      significandAt_of_value sum_fits (commonExponent_fits left right) sum_nonzero value
    exact ⟨commonExponent left right, left.significandAt (commonExponent left right),
      Int.min_le_right _ _, le, right_fits, same ▸ sum_fits, left_fits, left_value_at left right⟩

theorem neg?_eq_some {d negated : Decimal} (negation : d.neg? = some negated) :
    FitsSigned significandBound (-d.significand) ∧ negated.significand = -d.significand ∧
      negated.exponent = d.exponent := by
  unfold neg? at negation
  split at negation
  · rename_i fits
    cases negation
    exact ⟨fits, rfl, rfl⟩
  · cases negation

theorem neg?_neg? {d negated : Decimal} (negation : d.neg? = some negated) :
    negated.neg? = some d := by
  obtain ⟨-, significand, exponent⟩ := neg?_eq_some negation
  rw [neg?_eq_ofParts?, significand, exponent, Int.neg_neg]
  exact ofParts?_self d

/-- A sum that was made gives the first term back when the second one is taken off. -/
theorem add?_undone {left right negated sum : Decimal} (negation : right.neg? = some negated)
    (added : left.add? right = some sum) : sum.add? negated = some left := by
  obtain ⟨negation_fits, significand, exponent⟩ := neg?_eq_some negation
  have back : left.value = sum.value + negated.value := by
    rw [add?_value added, neg?_value negation, Rat.add_assoc, Rat.add_neg_cancel, Rat.add_zero]
  by_cases right_zero : right.significand = 0
  · have negated_zero : negated.significand = 0 := by omega
    rw [add?_of_right_zero left right_zero] at added
    rw [add?_of_right_zero sum negated_zero, added]
  by_cases sum_zero : sum.significand = 0
  · rw [value_of_significand_zero sum_zero, Rat.zero_add] at back
    rw [add?_of_left_zero sum_zero, eq_of_value_eq back]
  have negated_nonzero : negated.significand ≠ 0 := by omega
  obtain ⟨low, first, right_le, sum_le, right_fits, sum_fits, first_fits, value⟩ :=
    exponent_of_sum right_zero sum_zero added
  have negated_le : low ≤ negated.exponent := exponent ▸ right_le
  have negated_fits : FitsSigned significandBound (negated.significandAt low) := by
    rw [significandAt, significand, exponent]
    exact neg_scaled_fits negation_fits right_fits
  have same : scaled (sum.significandAt low + negated.significandAt low) low = scaled first low := by
    rw [scaled_add, ← value_at sum_le, ← value_at negated_le, ← back, value]
  have sum_back : sum.significandAt low + negated.significandAt low = first := scaled_inj.mp same
  rw [add?_eq_some_of_nonzero sum_zero negated_nonzero]
  exact ⟨sumFits_of_lower sum_le negated_le sum_fits negated_fits (sum_back ▸ first_fits), back⟩

/-- A difference that is made gives the first number back when the second one is added, and a sum
    when the second one is subtracted, unless that one has no negation. No check fails on the way
    back. -/
theorem sums_and_differences_undone (left right : Decimal) :
    (∀ difference, left.sub? right = some difference → difference.add? right = some left) ∧
    (∀ sum, left.add? right = some sum → (∃ negated, right.neg? = some negated) →
      sum.sub? right = some left) := by
  constructor
  · intro difference found
    obtain ⟨negated, negation, added⟩ := Option.bind_eq_some_iff.mp found
    exact add?_undone (neg?_neg? negation) added
  · rintro sum added ⟨negated, negation⟩
    rw [sub?, negation, Option.bind_some]
    exact add?_undone negation added

theorem highest_sum_undone :
    ∃ left right sum, ofParts? 95 maxExponent = some left ∧ ofParts? 5 maxExponent = some right ∧
      sum.significand = 100 ∧ sum.exponent = maxExponent ∧ left.add? right = some sum ∧
      (∃ negated, right.neg? = some negated) ∧ sum.sub? right = some left ∧
      left.add? right = some sum := by
  -- The highest exponent leaves zeros at the end of the sum.
  let left : Decimal := ⟨95, maxExponent, by decide, by decide, by decide, by decide⟩
  let right : Decimal := ⟨5, maxExponent, by decide, by decide, by decide, by decide⟩
  let sum : Decimal := ⟨100, maxExponent, by decide, by decide, by decide, by decide⟩
  have added : left.add? right = some sum := by decide
  have negation : ∃ negated, right.neg? = some negated := neg?_of_fits (by decide)
  have undone : sum.sub? right = some left :=
    (sums_and_differences_undone left right).2 sum added negation
  exact ⟨left, right, sum, ofParts?_self left, ofParts?_self right, rfl, rfl, added, negation,
    undone, (sums_and_differences_undone sum right).1 left undone⟩

end Decimal
end EntityCatalog
