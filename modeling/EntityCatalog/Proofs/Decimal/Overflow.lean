import EntityCatalog.Proofs.Schema.Codec

/- The numbers whose own text is refused. The digits of a literal are read as a magnitude, and that
   has to stay below the bound under a minus as well, where a significand may reach it. And zeros at
   the end of a significand are read as a part of the exponent, which cannot rise above the highest
   one that such a number has. -/
namespace EntityCatalog
namespace Decimal

/-- The lowest significand, or one that ends in a zero, which the highest exponent leaves there. -/
def Refused (d : Decimal) : Prop :=
  d.significand = -(significandBound : Int) ∨
    d.exponent = maxExponent ∧ d.significand ≠ 0 ∧ d.significand % 10 = 0

instance (d : Decimal) : Decidable d.Refused := inferInstanceAs (Decidable (_ ∨ _))

theorem trimmed_of_not_refused {d : Decimal} (kept : ¬ d.Refused) : d.Trimmed := by
  have fits := d.significand_fits
  have last := d.last_digit
  unfold Refused at kept
  unfold FitsSigned at fits
  constructor
  · omega
  · omega

theorem scanDigits_whole_overflow {whole : List Char} {m zeros : Nat} (position : Nat)
    (rest : List Char) (allDigits : ∀ c ∈ whole, c.isDigit = true)
    (value : Nat.ofDigitChars 10 whole 0 = m * tenTo zeros) (minimal : Minimal m zeros)
    (large : significandBound ≤ m) :
    scanDigits .start position (whole ++ rest) = .error .overflow := by
  obtain ⟨significand, -⟩ := Scan.digits_eq allDigits Scan.start_tight value minimal
  exact scanDigits_overflow position rest allDigits (by decide) (by rw [significand]; exact large)

theorem scanDigits_point_overflow {whole fraction : List Char} {m zeros : Nat} (position : Nat)
    (wholeDigits : ∀ c ∈ whole, c.isDigit = true)
    (fractionDigits : ∀ c ∈ fraction, c.isDigit = true)
    (value : Nat.ofDigitChars 10 (whole ++ fraction) 0 = m * tenTo zeros)
    (minimal : Minimal m zeros) (large : significandBound ≤ m) :
    scanDigits .start position (whole ++ '.' :: fraction) = .error .overflow := by
  by_cases half_fits : (Scan.start.digits whole).significand < significandBound
  · obtain ⟨significand, -⟩ :=
      Scan.pointed_digits_eq wholeDigits fractionDigits value minimal
    rw [scanDigits_digits position _ wholeDigits half_fits,
      scanDigits_point (Scan.digits_pointSeen Scan.start whole), ← List.append_nil fraction]
    exact scanDigits_overflow _ [] fractionDigits half_fits (by rw [significand]; exact large)
  · exact scanDigits_overflow position _ wholeDigits (by decide) (Nat.le_of_not_lt half_fits)

theorem scanDigits_lowest {d : Decimal} {chars : List Char} (layout : Layout d chars)
    (lowest : d.significand = -(significandBound : Int)) (position : Nat) :
    scanDigits .start position chars = .error .overflow := by
  have magnitude : d.significand.natAbs = significandBound := by omega
  have minimal (zeros : Nat) : Minimal significandBound zeros := Or.inl (by decide)
  cases layout with
  | scaled power =>
    have value := digits_plain d
    rw [magnitude] at value
    exact scanDigits_whole_overflow position _ isDigit_of_mem_digits value (minimal _)
      (Nat.le_refl _)
  | @filled zeros few power =>
    have value := filled_number d zeros
    rw [magnitude] at value
    rw [← List.append_nil (d.digits ++ _)]
    exact scanDigits_whole_overflow position [] isDigit_of_mem_filled value (minimal _)
      (Nat.le_refl _)
  | pointed wholeDigits fractionDigits some_digit value power =>
    rw [magnitude] at value
    exact scanDigits_point_overflow position wholeDigits fractionDigits value (minimal _)
      (Nat.le_refl _)

theorem pendingZeros_pos {d : Decimal} (nonzero : d.significand ≠ 0)
    (last : d.significand % 10 = 0) :
    (Scan.start.digits d.digits).significand ≤ d.significand.natAbs ∧
      0 < (Scan.start.digits d.digits).pendingZeros := by
  have tight : (Scan.start.digits d.digits).Tight :=
    Scan.digits_tight isDigit_of_mem_digits Scan.start_tight
  have value : (Scan.start.digits d.digits).value = d.significand.natAbs :=
    (Scan.digits_value Scan.start d.digits).trans (digits_number d)
  unfold Scan.value at value
  constructor
  · rw [← value]
    exact Nat.le_mul_of_pos_right _ (tenTo_pos _)
  · apply Nat.pos_of_ne_zero
    intro none
    rw [none, tenTo_zero, Nat.mul_one] at value
    unfold Scan.Tight Minimal at tight
    omega

theorem ofParts?_eq_none {significand exponent : Int} (high : maxExponent < exponent) :
    ofParts? significand exponent = none := by
  unfold ofParts?
  apply dif_neg
  rintro ⟨-, fits⟩
  unfold FitsSigned exponentBound at fits
  unfold maxExponent at high
  omega

theorem readUnsigned_highest {d : Decimal} {chars : List Char} (layout : Layout d chars)
    (fits : d.significand.natAbs < significandBound) (highest : d.exponent = maxExponent)
    (nonzero : d.significand ≠ 0) (last : d.significand % 10 = 0) (negative : Bool)
    (position : Nat) : readUnsigned negative position chars = .error .overflow := by
  -- The zeros of the significand are added to an exponent that is already the highest.
  cases layout with
  | @scaled minus n power =>
    obtain ⟨le, zeros⟩ := pendingZeros_pos nonzero last
    have seen : (Scan.start.digits d.digits).digitSeen = true :=
      Scan.digits_digitSeen (Or.inl (digits_ne_nil d))
    have whole := Scan.start_digits_exponent d.digits
    have parts (s : Int) : ofParts? s ((Scan.start.digits d.digits).exponent +
        (Scan.start.digits d.digits).pendingZeros + signed minus n) = none :=
      ofParts?_eq_none (by omega)
    unfold readUnsigned
    rw [scanDigits_digits position _ isDigit_of_mem_digits (Nat.lt_of_le_of_lt le fits),
      scanDigits_marker seen]
    simp only [seen, Bool.true_eq_false, if_false, readExponent_text, parts]
  | filled few power =>
    unfold maxPadding at few
    unfold maxExponent at highest
    omega
  | pointed wholeDigits fractionDigits some_digit value power =>
    unfold maxExponent at highest
    omega

theorem read_refused {d : Decimal} (refused : d.Refused) : read d.text = .error .overflow := by
  have layout := unsignedChars_layout d
  unfold read text
  rw [String.toList_ofList, splitSign_chars]
  rcases refused with lowest | ⟨highest, nonzero, last⟩
  · exact readUnsigned_of_fault (scanDigits_lowest layout lowest _)
  · have fits : d.significand.natAbs < significandBound := by
      have range := d.significand_fits
      unfold FitsSigned at range
      -- The lowest significand does not end in a zero.
      unfold significandBound at range ⊢
      omega
    exact readUnsigned_highest layout fits highest nonzero last _ _

/-- Every number is read back from its own text, except the refused ones, which are reported as an
    overflow. -/
theorem read_text (d : Decimal) :
    read d.text = if d.Refused then .error .overflow else .ok d := by
  split
  · rename_i refused
    exact read_refused refused
  · rename_i kept
    exact trimmed_reads_back (trimmed_of_not_refused kept)

end Decimal

/-- Every number is made from its own parts. It is written without a fault and comes back from what
    was written, unless it is refused; then what was written cannot be read any more. Reading in
    words and in unbounded numbers is the same here. -/
theorem written_decimal_reads_back_unless_refused (field : String) (d : Decimal) :
    Decimal.ofParts? d.significand d.exponent = some d ∧
      Decimal.read d.text = (if d.Refused then .error .overflow else .ok d) ∧
      Decimal.parse d.text = (if d.Refused then .error .overflow else .ok d) ∧
      (decimalCodec field).encode d = .ok (.string d.text) ∧
      (decimalCodec field).decode (.string d.text) =
        if d.Refused then .error (.invalidDecimal field d.text) else .ok d := by
  have back := Decimal.read_text d
  have same := Decimal.parse_text d
  refine ⟨Decimal.ofParts?_self d, back, same.trans back, rfl, ?_⟩
  by_cases refused : d.Refused
  · rw [if_pos refused] at back
    rw [if_pos refused]
    simp only [decimalCodec, Document.expect, Value.string?, same, back]
  · rw [if_neg refused]
    exact decimalCodec_decode field
      (Decimal.readable_iff_trimmed.mpr (Decimal.trimmed_of_not_refused refused))

namespace Decimal

def lowestNumber : Decimal :=
  ⟨-(significandBound : Int), 0, by decide, zero.exponent_fits, by decide, by decide⟩

def highestTen : Decimal := ⟨10, maxExponent, by decide, by decide, by decide, by decide⟩

/-- Both kinds of refused numbers are made from parts that are in range. -/
theorem refused_numbers_are_made :
    (ofParts? (-(significandBound : Int)) 0 = some lowestNumber ∧
      lowestNumber.text = "-170141183460469231731687303715884105728" ∧
      parse lowestNumber.text = .error .overflow) ∧
    (ofParts? 10 maxExponent = some highestTen ∧ highestTen.text = "10E+2147483647" ∧
      parse highestTen.text = .error .overflow) := by
  constructor
  · exact ⟨ofParts?_self lowestNumber, by decide +kernel,
      (parse_text _).trans (read_refused (by decide))⟩
  · exact ⟨ofParts?_self highestTen, by decide +kernel,
      (parse_text _).trans (read_refused (by decide))⟩

end Decimal
end EntityCatalog
