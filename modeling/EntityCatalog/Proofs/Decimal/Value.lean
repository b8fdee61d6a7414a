import EntityCatalog.Proofs.Decimal.Text

/- Decimals as rational numbers. The normal form keeps the value of the parts that it is made from,
   and of all decimals with one value there is only one, so the two fields of decimals are equal
   exactly when the numbers are. Negation, addition and subtraction are exact where they are not
   refused. Brought to a lower exponent, a decimal has a longer significand and the same value, so at a
   common exponent two decimals compare and add up as their significands do. -/
namespace EntityCatalog

/-- The number that a significand and an exponent stand for. -/
def scaled (significand exponent : Int) : Rat := significand * (10 : Rat) ^ exponent

theorem tenPower_ne_zero (exponent : Int) : (10 : Rat) ^ exponent ≠ 0 :=
  Rat.ne_of_gt (Rat.zpow_pos (by decide))

theorem tenPower_nat (places : Nat) :
    (10 : Rat) ^ (places : Int) = ((tenTo places : Int) : Rat) := by
  induction places with
  | zero => rfl
  | succ places ih =>
    rw [Int.natCast_succ, Rat.zpow_add_one (by decide), ih, tenTo_succ, Int.natCast_mul,
      Rat.intCast_mul]
    rfl

theorem scaled_lower {low high : Int} (le : low ≤ high) (significand : Int) :
    scaled significand high = scaled (significand * tenTo (high - low).toNat) low := by
  have split : high = ((high - low).toNat : Int) + low := by omega
  unfold scaled
  rw [Rat.intCast_mul, ← tenPower_nat, Rat.mul_assoc, ← Rat.zpow_add (by decide), ← split]

@[simp] theorem scaled_zero (exponent : Int) : scaled 0 exponent = 0 := Rat.zero_mul _

theorem scaled_neg (significand exponent : Int) :
    scaled (-significand) exponent = -scaled significand exponent := by
  unfold scaled
  rw [Rat.intCast_neg, Rat.neg_mul]

theorem scaled_add (first second exponent : Int) :
    scaled (first + second) exponent = scaled first exponent + scaled second exponent := by
  unfold scaled
  rw [Rat.intCast_add, Rat.add_mul]

@[simp] theorem scaled_inj {first second exponent : Int} :
    scaled first exponent = scaled second exponent ↔ first = second := by
  constructor
  · intro same
    have cancelled := congrArg (· / (10 : Rat) ^ exponent) same
    simp only [scaled, Rat.mul_div_cancel (tenPower_ne_zero exponent)] at cancelled
    exact Rat.intCast_inj.mp cancelled
  · intro same
    rw [same]

namespace Decimal

def value (d : Decimal) : Rat := scaled d.significand d.exponent

@[simp] theorem zero_value : zero.value = 0 := scaled_zero 0

theorem value_of_significand_zero {d : Decimal} (isZero : d.significand = 0) : d.value = 0 := by
  rw [value, isZero, scaled_zero]

theorem stripTens_scaled (room : Nat) (significand exponent : Int) :
    scaled (stripTens room significand exponent).1 (stripTens room significand exponent).2 =
      scaled significand exponent := by
  rw [scaled_lower (stripTens_exponent room significand exponent).1, ← stripTens_value]

theorem ofParts?_value {significand exponent : Int} {d : Decimal}
    (made : ofParts? significand exponent = some d) : d.value = scaled significand exponent := by
  unfold ofParts? at made
  split at made
  · cases made
    unfold normal
    split
    · rename_i isZero
      rw [zero_value, isZero, scaled_zero]
    · exact stripTens_scaled _ significand exponent
  · cases made

theorem ofParts?_isSome {significand exponent : Int}
    (fits : FitsSigned significandBound significand)
    (power_fits : FitsSigned exponentBound exponent) :
    ∃ d, ofParts? significand exponent = some d := by
  unfold ofParts?
  rw [dif_pos ⟨fits, power_fits⟩]
  exact ⟨_, rfl⟩

/-- The only forms: zero has no exponent, and a digit zero stands last only where the exponent can
    rise no further. -/
def Canonical (significand exponent : Int) : Prop :=
  (significand = 0 → exponent = 0) ∧
    (significand ≠ 0 → significand % 10 = 0 → exponent = maxExponent)

theorem canonical (d : Decimal) : Canonical d.significand d.exponent :=
  ⟨d.zero_form, fun nonzero last => (d.last_digit last).resolve_left nonzero⟩

theorem eq_of_parts {d e : Decimal} (significand : d.significand = e.significand)
    (exponent : d.exponent = e.exponent) : d = e := by
  cases d
  cases e
  simp only at significand exponent
  subst significand exponent
  rfl

theorem exponent_not_lt {d e : Decimal} (same : d.value = e.value) (nonzero : e.significand ≠ 0) :
    ¬ d.exponent < e.exponent := by
  -- Of two numbers of one value the one with the lower exponent would end in a zero.
  intro lower
  obtain ⟨places, raised⟩ : ∃ places : Nat, (e.exponent - d.exponent).toNat = places + 1 :=
    ⟨(e.exponent - d.exponent).toNat - 1, by omega⟩
  have aligned : d.significand = e.significand * tenTo places * 10 := by
    unfold value at same
    rw [scaled_lower (Int.le_of_lt lower) e.significand, scaled_inj, raised, tenTo_succ] at same
    rw [same, Int.natCast_mul, Int.mul_assoc]
    rfl
  have power : (tenTo places : Int) ≠ 0 := by
    have positive := tenTo_pos places
    omega
  have fits := e.exponent_fits
  unfold FitsSigned exponentBound at fits
  -- Ending in a zero, `d` is zero or has the highest exponent, which is not below another one.
  rcases d.last_digit (by omega) with isZero | highest
  · have empty : e.significand * tenTo places = 0 := by omega
    exact (Int.mul_eq_zero.mp empty).elim nonzero power
  · unfold maxExponent at highest
    omega

theorem value_eq_zero_iff {d : Decimal} : d.value = 0 ↔ d.significand = 0 := by
  rw [value, ← scaled_zero d.exponent, scaled_inj]

theorem eq_of_value_eq {d e : Decimal} (same : d.value = e.value) : d = e := by
  by_cases isZero : e.significand = 0
  · have zero_value := value_of_significand_zero isZero
    have d_zero := value_eq_zero_iff.mp (same.trans zero_value)
    exact eq_of_parts (d_zero.trans isZero.symm)
      ((d.zero_form d_zero).trans (e.zero_form isZero).symm)
  · have d_nonzero : d.significand ≠ 0 := fun d_zero =>
      isZero (value_eq_zero_iff.mp (same.symm.trans (value_of_significand_zero d_zero)))
    have exponent : d.exponent = e.exponent := by
      have not_below := exponent_not_lt same isZero
      have not_above := exponent_not_lt same.symm d_nonzero
      omega
    refine eq_of_parts ?_ exponent
    unfold value at same
    rwa [exponent, scaled_inj] at same

theorem neg?_value {d n : Decimal} (negated : d.neg? = some n) : n.value = -d.value := by
  unfold neg? at negated
  split at negated
  · cases negated
    exact scaled_neg d.significand d.exponent
  · cases negated

theorem alignedTo?_value {d : Decimal} {exponent aligned : Int} (le : exponent ≤ d.exponent)
    (found : d.alignedTo? exponent = some aligned) : scaled aligned exponent = d.value := by
  unfold alignedTo? at found
  simp only at found
  split at found
  · cases found
    exact (scaled_lower le d.significand).symm
  · cases found

theorem add?_value {left right sum : Decimal} (added : left.add? right = some sum) :
    sum.value = left.value + right.value := by
  unfold add? at added
  split at added
  · rename_i isZero
    cases added
    rw [value_of_significand_zero isZero, Rat.zero_add]
  · split at added
    · rename_i isZero
      cases added
      rw [value_of_significand_zero isZero, Rat.add_zero]
    · simp only at added
      split at added
      · rename_i first second first_found second_found
        rw [ofParts?_value added, scaled_add, alignedTo?_value (Int.min_le_left _ _) first_found,
          alignedTo?_value (Int.min_le_right _ _) second_found]
      · cases added

theorem sub?_value {left right difference : Decimal} (found : left.sub? right = some difference) :
    difference.value = left.value - right.value := by
  unfold sub? at found
  obtain ⟨negated, negation, added⟩ := Option.bind_eq_some_iff.mp found
  rw [add?_value added, neg?_value negation, Rat.sub_eq_add_neg]

/-- Negation does not normalize, and need not: the negated parts are in normal form already. -/
theorem neg?_eq_ofParts? (d : Decimal) : d.neg? = ofParts? (-d.significand) d.exponent := by
  unfold neg?
  split
  · exact (ofParts?_self _).symm
  · rename_i large
    unfold ofParts?
    rw [dif_neg fun fits => large fits.1]

/-- Decimals have the same parts exactly when they have the same value. Their parts are canonical,
    and the normal form leaves them as they are, those of a negation as well. It exists for all
    parts in range and keeps their value. -/
theorem same_parts_iff_same_value :
    (∀ d e : Decimal,
      (d.significand = e.significand ∧ d.exponent = e.exponent) ↔ d.value = e.value) ∧
    (∀ d : Decimal, Canonical d.significand d.exponent ∧
      ofParts? d.significand d.exponent = some d ∧
      d.neg? = ofParts? (-d.significand) d.exponent) ∧
    ∀ significand exponent, FitsSigned significandBound significand →
      FitsSigned exponentBound exponent →
      ∃ d, ofParts? significand exponent = some d ∧ d.value = scaled significand exponent := by
  refine ⟨fun d e => ⟨fun same => ?_, fun same => ?_⟩, fun d => ?_, ?_⟩
  · rw [eq_of_parts same.1 same.2]
  · rw [eq_of_value_eq same]
    exact ⟨rfl, rfl⟩
  · exact ⟨d.canonical, ofParts?_self d, neg?_eq_ofParts? d⟩
  · intro significand exponent fits power_fits
    obtain ⟨d, made⟩ := ofParts?_isSome fits power_fits
    exact ⟨d, made, ofParts?_value made⟩

theorem shifted_parts_meet :
    FitsSigned significandBound (-200) ∧ FitsSigned exponentBound (-2) ∧
      ∃ d e, ofParts? (-200) (-2) = some d ∧ ofParts? (-2) 0 = some e ∧
        d.significand = e.significand ∧ d.exponent = e.exponent := by
  obtain ⟨equal, -, normal⟩ := same_parts_iff_same_value
  have large : FitsSigned significandBound (-200) := by decide
  have low : FitsSigned exponentBound (-2) := by decide
  obtain ⟨d, made, value⟩ := normal (-200) (-2) large low
  obtain ⟨e, other_made, other_value⟩ := normal (-2) 0 (by decide) (by decide)
  refine ⟨large, low, d, e, made, other_made, (equal d e).mpr ?_⟩
  rw [value, other_value, scaled_lower (by decide : (-2 : Int) ≤ 0)]
  rfl

end Decimal

/-! ### The common exponent -/

theorem scaled_lt_iff {first second exponent : Int} :
    scaled first exponent < scaled second exponent ↔ first < second := by
  unfold scaled
  rw [Rat.mul_lt_mul_right (Rat.zpow_pos (by decide)), Rat.intCast_lt_intCast]

theorem tenTo_le {fewer more : Nat} (le : fewer ≤ more) : tenTo fewer ≤ tenTo more :=
  Nat.pow_le_pow_right (by decide) le

theorem tenTo_cast_pos (places : Nat) : (0 : Int) < tenTo places :=
  Int.natCast_pos.mpr (tenTo_pos places)

/-- The 38th power of ten is the last one in the range of a significand. -/
theorem tenTo_fits_iff {places : Nat} :
    FitsSigned significandBound (tenTo places) ↔ places ≤ 38 := by
  have last : tenTo 38 < significandBound := by decide
  have beyond : significandBound ≤ tenTo 39 := by decide
  unfold FitsSigned
  constructor
  · intro fits
    refine Nat.le_of_not_lt fun more => ?_
    have large : tenTo 39 ≤ tenTo places := tenTo_le more
    omega
  · intro few
    have small := tenTo_le few
    omega

namespace Decimal

def significandAt (d : Decimal) (exponent : Int) : Int :=
  d.significand * tenTo (d.exponent - exponent).toNat

def commonExponent (left right : Decimal) : Int := min left.exponent right.exponent

theorem commonExponent_comm (left right : Decimal) :
    commonExponent left right = commonExponent right left := Int.min_comm _ _

theorem value_at {d : Decimal} {exponent : Int} (le : exponent ≤ d.exponent) :
    d.value = scaled (d.significandAt exponent) exponent := scaled_lower le d.significand

theorem left_value_at (left right : Decimal) :
    left.value = scaled (left.significandAt (commonExponent left right))
      (commonExponent left right) := value_at (Int.min_le_left _ _)

theorem right_value_at (left right : Decimal) :
    right.value = scaled (right.significandAt (commonExponent left right))
      (commonExponent left right) := value_at (Int.min_le_right _ _)

theorem significandAt_sign (d : Decimal) (exponent : Int) :
    (d.significandAt exponent).sign = d.significand.sign := by
  rw [significandAt, Int.sign_mul, Int.sign_eq_one_of_pos (tenTo_cast_pos _), Int.mul_one]

theorem significandAt_natAbs (d : Decimal) (exponent : Int) :
    (d.significandAt exponent).natAbs =
      d.significand.natAbs * tenTo (d.exponent - exponent).toNat := by
  rw [significandAt, Int.natAbs_mul, Int.natAbs_natCast]

end Decimal

end EntityCatalog
