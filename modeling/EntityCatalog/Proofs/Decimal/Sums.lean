import EntityCatalog.Proofs.Decimal.Value

/- When a sum of decimals is refused. The power of ten that aligns a term, the aligned term and the
   sum are checked one after the other, and all these checks together say no more than that both
   significands and their sum are in range at the common exponent. -/
namespace EntityCatalog

def inRange? (n : Int) : Option Int := if FitsSigned significandBound n then some n else none

theorem inRange?_eq_some {n found : Int} :
    inRange? n = some found ↔ FitsSigned significandBound n ∧ n = found := by
  unfold inRange?
  split
  · rename_i fits
    simp [fits]
  · rename_i large
    simp [large]

namespace Decimal

theorem alignedTo?_eq (d : Decimal) (exponent : Int) :
    d.alignedTo? exponent =
      (inRange? (tenTo (d.exponent - exponent).toNat)).bind fun power =>
        inRange? (d.significand * power) := by
  unfold alignedTo? inRange?
  simp only [tenTo_fits_iff]
  by_cases few : (d.exponent - exponent).toNat ≤ 38
  · simp [few]
  · simp [few]

theorem power_fits {d : Decimal} (nonzero : d.significand ≠ 0) {exponent : Int}
    (fits : FitsSigned significandBound (d.significandAt exponent)) :
    FitsSigned significandBound (tenTo (d.exponent - exponent).toNat) := by
  -- The power is a factor of the product, so it is not larger.
  rw [tenTo_fits_iff]
  refine Nat.le_of_not_lt fun more => ?_
  have beyond : significandBound < tenTo 39 := by decide
  have power : tenTo 39 ≤ tenTo (d.exponent - exponent).toNat := tenTo_le more
  have product : tenTo (d.exponent - exponent).toNat ≤ (d.significandAt exponent).natAbs := by
    rw [significandAt_natAbs]
    exact Nat.le_mul_of_pos_left _ (Int.natAbs_pos.mpr nonzero)
  unfold FitsSigned at fits
  omega

theorem alignedTo?_eq_some {d : Decimal} (nonzero : d.significand ≠ 0) {exponent aligned : Int} :
    d.alignedTo? exponent = some aligned ↔
      FitsSigned significandBound (d.significandAt exponent) ∧
        d.significandAt exponent = aligned := by
  -- For a term that is not zero the check of the power adds nothing to that of the product.
  rw [alignedTo?_eq, Option.bind_eq_some_iff]
  simp only [inRange?_eq_some]
  constructor
  · rintro ⟨power, ⟨-, rfl⟩, product⟩
    exact product
  · rintro ⟨fits, same⟩
    exact ⟨_, ⟨power_fits nonzero fits, rfl⟩, fits, same⟩

/-- Both significands at the common exponent, and their sum, are in range. -/
def SumFits (left right : Decimal) : Prop :=
  FitsSigned significandBound (left.significandAt (commonExponent left right)) ∧
    FitsSigned significandBound (right.significandAt (commonExponent left right)) ∧
    FitsSigned significandBound (left.significandAt (commonExponent left right) +
      right.significandAt (commonExponent left right))

theorem sumFits_comm {left right : Decimal} : SumFits left right ↔ SumFits right left := by
  unfold SumFits
  rw [commonExponent_comm right left, Int.add_comm (right.significandAt _), and_left_comm]

theorem commonExponent_fits (left right : Decimal) :
    FitsSigned exponentBound (commonExponent left right) := by
  have left_fits := left.exponent_fits
  have right_fits := right.exponent_fits
  unfold FitsSigned commonExponent at *
  omega

theorem ofParts?_eq_some {significand exponent : Int} {d : Decimal} :
    ofParts? significand exponent = some d ↔
      FitsSigned significandBound significand ∧ FitsSigned exponentBound exponent ∧
        d.value = scaled significand exponent := by
  constructor
  · intro made
    have value := ofParts?_value made
    unfold ofParts? at made
    split at made
    · rename_i fits
      exact ⟨fits.1, fits.2, value⟩
    · cases made
  · rintro ⟨fits, power_fits, value⟩
    obtain ⟨e, made⟩ := ofParts?_isSome fits power_fits
    rw [made, eq_of_value_eq (value.trans (ofParts?_value made).symm)]

theorem add?_of_nonzero {left right : Decimal} (left_nonzero : left.significand ≠ 0)
    (right_nonzero : right.significand ≠ 0) :
    left.add? right =
      (left.alignedTo? (commonExponent left right)).bind fun first =>
        (right.alignedTo? (commonExponent left right)).bind fun second =>
          ofParts? (first + second) (commonExponent left right) := by
  unfold add? commonExponent
  rw [if_neg left_nonzero, if_neg right_nonzero]
  simp only
  cases left.alignedTo? (min left.exponent right.exponent) with
  | none => rfl
  | some first => cases right.alignedTo? (min left.exponent right.exponent) <;> rfl

/-- The checks of all steps amount to one condition. -/
theorem add?_eq_some_of_nonzero {left right sum : Decimal} (left_nonzero : left.significand ≠ 0)
    (right_nonzero : right.significand ≠ 0) :
    left.add? right = some sum ↔
      SumFits left right ∧ sum.value = left.value + right.value := by
  rw [add?_of_nonzero left_nonzero right_nonzero]
  simp only [Option.bind_eq_some_iff, alignedTo?_eq_some left_nonzero,
    alignedTo?_eq_some right_nonzero, ofParts?_eq_some]
  rw [left_value_at left right, right_value_at left right, ← scaled_add]
  constructor
  · rintro ⟨first, ⟨first_fits, rfl⟩, second, ⟨second_fits, rfl⟩, sum_fits, -, value⟩
    exact ⟨⟨first_fits, second_fits, sum_fits⟩, value⟩
  · rintro ⟨⟨first_fits, second_fits, sum_fits⟩, value⟩
    exact ⟨_, ⟨first_fits, rfl⟩, _, ⟨second_fits, rfl⟩, sum_fits,
      commonExponent_fits left right, value⟩

theorem add?_of_left_zero {left : Decimal} (zero : left.significand = 0) (right : Decimal) :
    left.add? right = some right := by
  unfold add?
  rw [if_pos zero]

theorem add?_of_right_zero {right : Decimal} (left : Decimal) (zero : right.significand = 0) :
    left.add? right = some left := by
  by_cases left_zero : left.significand = 0
  · rw [add?_of_left_zero left_zero, eq_of_value_eq ((value_of_significand_zero left_zero).trans
      (value_of_significand_zero zero).symm)]
  · unfold add?
    rw [if_neg left_zero, if_pos zero]

theorem add?_comm (left right : Decimal) : left.add? right = right.add? left := by
  by_cases left_zero : left.significand = 0
  · rw [add?_of_left_zero left_zero, add?_of_right_zero right left_zero]
  by_cases right_zero : right.significand = 0
  · rw [add?_of_right_zero left right_zero, add?_of_left_zero right_zero]
  apply Option.ext
  intro sum
  rw [add?_eq_some_of_nonzero left_zero right_zero, add?_eq_some_of_nonzero right_zero left_zero,
    sumFits_comm, Rat.add_comm]

theorem sum_exists_iff {left right : Decimal} (left_nonzero : left.significand ≠ 0)
    (right_nonzero : right.significand ≠ 0) :
    (∃ sum, left.add? right = some sum) ↔ SumFits left right := by
  simp only [add?_eq_some_of_nonzero left_nonzero right_nonzero]
  constructor
  · rintro ⟨sum, fits, -⟩
    exact fits
  · intro fits
    obtain ⟨sum, made⟩ := ofParts?_isSome fits.2.2 (commonExponent_fits left right)
    refine ⟨sum, fits, ?_⟩
    rw [ofParts?_value made, scaled_add, ← left_value_at, ← right_value_at]

theorem neg?_of_fits {d : Decimal} (fits : FitsSigned significandBound (-d.significand)) :
    ∃ negated, d.neg? = some negated := by
  unfold neg?
  rw [dif_pos fits]
  exact ⟨_, rfl⟩

/-- A sum with zero is the other term. Any other sum is refused exactly if a significand or the sum
    is out of range at the common exponent, and a sum that is made is in normal form and exact. The
    order of the terms never matters. A difference is the sum with the negation, where there is
    one. -/
theorem sums_exact_or_out_of_range (left right : Decimal) :
    (left.significand = 0 → left.add? right = some right) ∧
    (right.significand = 0 → left.add? right = some left) ∧
    (left.significand ≠ 0 → right.significand ≠ 0 →
      ((∃ sum, left.add? right = some sum) ↔ SumFits left right)) ∧
    (∀ sum, left.add? right = some sum →
      Canonical sum.significand sum.exponent ∧ sum.value = left.value + right.value) ∧
    left.add? right = right.add? left ∧
    (FitsSigned significandBound (-right.significand) →
      ∃ negated, right.neg? = some negated ∧ negated.value = -right.value ∧
        left.sub? right = left.add? negated ∧
        ∀ difference, left.sub? right = some difference →
          Canonical difference.significand difference.exponent ∧
            difference.value = left.value - right.value) := by
  refine ⟨fun zero => add?_of_left_zero zero right, add?_of_right_zero left, sum_exists_iff,
    fun sum added => ⟨sum.canonical, add?_value added⟩, add?_comm left right, fun fits => ?_⟩
  obtain ⟨negated, negation⟩ := neg?_of_fits fits
  have by_sum : left.sub? right = left.add? negated := by rw [sub?, negation, Option.bind_some]
  exact ⟨negated, negation, neg?_value negation, by_sum,
    fun difference found => ⟨difference.canonical, sub?_value found⟩⟩

/-- A tenth and two tenths add up, and terms sixty places apart do not. -/
example :
    ((ofParts? 1 (-1)).bind fun a => (ofParts? 2 (-1)).bind a.add?) = ofParts? 3 (-1) ∧
      ((ofParts? 1 30).bind fun a => (ofParts? 1 (-30)).bind a.add?) = none := by
  decide

end Decimal
end EntityCatalog
