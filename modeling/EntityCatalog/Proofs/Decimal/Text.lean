import EntityCatalog.Proofs.Decimal.Scan

/- Writing a decimal and reading it again. Each number without a zero at the end of its significand
   comes back from its text, and no text is longer than a few dozen characters. -/
namespace EntityCatalog
namespace Decimal

/-- No zero stands at the end of the significand, whatever the exponent, and the negated
    significand is in range as well. -/
def Trimmed (d : Decimal) : Prop :=
  d.significand.natAbs < significandBound ∧ (d.significand % 10 ≠ 0 ∨ d.significand = 0)

theorem ofParts?_significand {significand exponent : Int} {d : Decimal}
    (last : significand % 10 ≠ 0 ∨ significand = 0)
    (parts : ofParts? significand exponent = some d) : d.significand = significand := by
  unfold ofParts? at parts
  split at parts
  · cases parts
    unfold normal
    split
    · rename_i isZero
      exact isZero.symm
    · rename_i nonzero
      simp only [stripTens_of_last_digit (last.resolve_right nonzero)]
  · cases parts

@[simp] theorem ofParts?_self (d : Decimal) : ofParts? d.significand d.exponent = some d := by
  unfold ofParts?
  rw [dif_pos ⟨d.significand_fits, d.exponent_fits⟩]
  unfold normal
  split
  · rename_i isZero
    have noPower := d.zero_form isZero
    cases d
    simp only at isZero noPower
    subst isZero noPower
    rfl
  · rename_i nonzero
    by_cases last : d.significand % 10 = 0
    · have highest := (d.last_digit last).resolve_left nonzero
      have room : (maxExponent - d.exponent).toNat = 0 := by omega
      simp only [room, stripTens_zero]
    · simp only [stripTens_of_last_digit last]

@[simp] theorem signed_natAbs (d : Decimal) :
    signed d.isNegative d.significand.natAbs = d.significand := by
  unfold signed isNegative
  simp only [decide_eq_true_eq]
  split <;> omega

theorem ofParts?_signed (d : Decimal) {exponent : Int} (same : exponent = d.exponent) :
    ofParts? (signed d.isNegative d.significand.natAbs) exponent = some d := by
  rw [same, signed_natAbs]
  exact ofParts?_self d

/-- What a literal denotes, from the scan of its digits and from its exponent part. -/
theorem readUnsigned_eq_ok {negative : Bool} {position : Nat} {chars : List Char} {d : Decimal} :
    readUnsigned negative position chars = .ok d ↔
      ∃ scan stop rest explicit, scanDigits .start position chars = .ok (scan, stop, rest) ∧
        scan.digitSeen = true ∧ readExponent stop rest = .ok explicit ∧
        ofParts? (signed negative scan.significand)
          (scan.exponent + scan.pendingZeros + explicit) = some d := by
  unfold readUnsigned
  constructor
  · intro found
    split at found
    · cases found
    · rename_i scan stop rest scanned
      split at found
      · cases found
      · rename_i seen
        split at found
        · cases found
        · rename_i explicit power
          split at found
          · rename_i number parts
            cases found
            exact ⟨scan, stop, rest, explicit, scanned, by simpa using seen, power, parts⟩
          · cases found
  · rintro ⟨scan, stop, rest, explicit, scanned, seen, power, parts⟩
    simp only [scanned, seen, Bool.true_eq_false, if_false, power, parts]

theorem readUnsigned_of_fault {negative : Bool} {position : Nat} {chars : List Char}
    {fault : Fault} (scanned : scanDigits .start position chars = .error fault) :
    readUnsigned negative position chars = .error fault := by
  unfold readUnsigned
  simp only [scanned]

theorem Scan.digits_eq {scan : Scan} {chars : List Char} {m zeros : Nat}
    (allDigits : ∀ c ∈ chars, c.isDigit = true) (tight : scan.Tight)
    (value : Nat.ofDigitChars 10 chars scan.value = m * tenTo zeros) (minimal : Minimal m zeros) :
    (scan.digits chars).significand = m ∧ (scan.digits chars).pendingZeros = zeros :=
  minimal_unique (Scan.digits_tight allDigits tight) minimal
    ((Scan.digits_value scan chars).trans value)

theorem Scan.pointed_digits_eq {whole fraction : List Char} {m zeros : Nat}
    (wholeDigits : ∀ c ∈ whole, c.isDigit = true)
    (fractionDigits : ∀ c ∈ fraction, c.isDigit = true)
    (value : Nat.ofDigitChars 10 (whole ++ fraction) 0 = m * tenTo zeros)
    (minimal : Minimal m zeros) :
    ((Scan.start.digits whole).withPoint.digits fraction).significand = m ∧
      ((Scan.start.digits whole).withPoint.digits fraction).pendingZeros = zeros := by
  have half_tight : (Scan.start.digits whole).withPoint.Tight :=
    Scan.digits_tight wholeDigits Scan.start_tight
  have half_value : (Scan.start.digits whole).withPoint.value = Nat.ofDigitChars 10 whole 0 :=
    Scan.digits_value Scan.start whole
  rw [Nat.ofDigitChars_append, ← half_value] at value
  exact Scan.digits_eq fractionDigits half_tight value minimal

theorem readExponent_text (stop n : Nat) (negative : Bool) :
    readExponent stop ('E' :: (if negative then '-' else '+') :: Nat.toDigits 10 n) =
      .ok (signed negative n) := by
  have allDigits : (Nat.toDigits 10 n).all Char.isDigit = true :=
    List.all_eq_true.mpr fun c member => Nat.isDigit_of_mem_toDigits (by decide) (by decide) member
  cases negative <;>
    simp [readExponent, splitSign, Nat.toDigits_ne_nil, allDigits, Nat.ofDigitChars_ten_toDigits]

theorem readUnsigned_whole {negative : Bool} {position : Nat} {whole rest : List Char}
    {m zeros : Nat} {explicit : Int} {d : Decimal} (allDigits : ∀ c ∈ whole, c.isDigit = true)
    (some_digit : whole ≠ []) (value : Nat.ofDigitChars 10 whole 0 = m * tenTo zeros)
    (minimal : Minimal m zeros) (fits : m < significandBound)
    (stops : rest = [] ∨ ∃ others, rest = 'E' :: others)
    (power : ∀ stop, readExponent stop rest = .ok explicit)
    (parts : ofParts? (signed negative m) (zeros + explicit) = some d) :
    readUnsigned negative position (whole ++ rest) = .ok d := by
  obtain ⟨significand, pending⟩ := Scan.digits_eq allDigits Scan.start_tight value minimal
  have seen : (Scan.start.digits whole).digitSeen = true :=
    Scan.digits_digitSeen (Or.inl some_digit)
  refine readUnsigned_eq_ok.mpr
    ⟨Scan.start.digits whole, position + whole.length, rest, explicit, ?_, seen, power _, ?_⟩
  · rw [scanDigits_digits position rest allDigits (by rw [significand]; exact fits)]
    rcases stops with rfl | ⟨others, rfl⟩
    · rfl
    · exact scanDigits_marker seen _ _
  · rw [significand, pending, Scan.start_digits_exponent, Int.zero_add]
    exact parts

theorem readUnsigned_point {negative : Bool} {position : Nat} {whole fraction : List Char}
    {m zeros : Nat} {d : Decimal} (wholeDigits : ∀ c ∈ whole, c.isDigit = true)
    (fractionDigits : ∀ c ∈ fraction, c.isDigit = true) (some_digit : whole ≠ [])
    (value : Nat.ofDigitChars 10 (whole ++ fraction) 0 = m * tenTo zeros)
    (minimal : Minimal m zeros) (fits : m < significandBound)
    (parts : ofParts? (signed negative m) (zeros - (fraction.length : Int)) = some d) :
    readUnsigned negative position (whole ++ '.' :: fraction) = .ok d := by
  let half := (Scan.start.digits whole).withPoint
  have half_seen : (Scan.start.digits whole).digitSeen = true :=
    Scan.digits_digitSeen (Or.inl some_digit)
  have half_exponent : half.exponent = 0 := Scan.start_digits_exponent whole
  obtain ⟨significand, pending⟩ :=
    Scan.pointed_digits_eq wholeDigits fractionDigits value minimal
  have in_range : (half.digits fraction).significand < significandBound := by
    rw [significand]
    exact fits
  have half_in_range : (Scan.start.digits whole).significand < significandBound :=
    Nat.lt_of_le_of_lt (Scan.digits_significand_le half fraction) in_range
  have exponent : (half.digits fraction).exponent = -(fraction.length : Int) := by
    rw [Scan.digits_exponent, half_exponent, Int.zero_sub]
    rfl
  refine readUnsigned_eq_ok.mpr
    ⟨half.digits fraction, position + whole.length + 1 + fraction.length, [], 0, ?_,
      Scan.digits_digitSeen (Or.inr half_seen), rfl, ?_⟩
  · rw [scanDigits_digits position _ wholeDigits half_in_range,
      scanDigits_point (Scan.digits_pointSeen Scan.start whole)]
    have onward := scanDigits_digits (position + whole.length + 1) [] fractionDigits in_range
    rw [List.append_nil] at onward
    exact onward.trans rfl
  · rw [significand, pending, exponent]
    refine Eq.trans ?_ parts
    congr 1
    omega

theorem isDigit_of_mem_digits {d : Decimal} : ∀ c ∈ d.digits, c.isDigit = true := fun _ member =>
  Nat.isDigit_of_mem_toDigits (by decide) (by decide) member

theorem digits_number (d : Decimal) : Nat.ofDigitChars 10 d.digits 0 = d.significand.natAbs :=
  Nat.ofDigitChars_ten_toDigits

theorem digits_ne_nil (d : Decimal) : d.digits ≠ [] := Nat.toDigits_ne_nil

theorem take_digits_ne_nil (d : Decimal) {whole : Nat} (some_whole : 0 < whole) :
    d.digits.take whole ≠ [] := by
  intro empty
  rcases List.take_eq_nil_iff.mp empty with none | none
  · omega
  · exact digits_ne_nil d none

theorem digits_length_pos (d : Decimal) : 0 < d.digits.length := Nat.length_toDigits_pos

theorem digits_length_le (d : Decimal) : d.digits.length ≤ 39 := by
  refine (Nat.length_toDigits_le_iff (by decide) (by decide)).mpr ?_
  have bound : significandBound < 10 ^ 39 := by decide
  have fits := d.significand_fits
  unfold FitsSigned at fits
  omega

theorem isDigit_of_mem_zeros {count : Nat} : ∀ c ∈ List.replicate count '0', c.isDigit = true :=
  fun c member => by
    rw [List.eq_of_mem_replicate member]
    decide

theorem digits_plain (d : Decimal) :
    Nat.ofDigitChars 10 d.digits 0 = d.significand.natAbs * tenTo 0 := by
  rw [digits_number]
  exact (Nat.mul_one _).symm

theorem isDigit_of_mem_filled {d : Decimal} {zeros : Nat} :
    ∀ c ∈ d.digits ++ List.replicate zeros '0', c.isDigit = true := by
  intro c member
  rcases List.mem_append.mp member with one | other
  · exact isDigit_of_mem_digits c one
  · exact isDigit_of_mem_zeros c other

theorem filled_number (d : Decimal) (zeros : Nat) :
    Nat.ofDigitChars 10 (d.digits ++ List.replicate zeros '0') 0 =
      d.significand.natAbs * tenTo zeros := by
  rw [Nat.ofDigitChars_append, digits_number, ofDigitChars_zeros, Nat.mul_comm]

/-- The shapes of a written number, its sign apart: digits and an exponent part, digits and the
    zeros that the exponent calls for, or digits with a point among them. -/
inductive Layout (d : Decimal) : List Char → Prop where
  | scaled {negative : Bool} {n : Nat} (power : signed negative n = d.exponent) :
      Layout d (d.digits ++ 'E' :: (if negative then '-' else '+') :: Nat.toDigits 10 n)
  | filled {zeros : Nat} (few : zeros ≤ maxPadding) (power : d.exponent = zeros) :
      Layout d (d.digits ++ List.replicate zeros '0')
  | pointed {whole fraction : List Char} (wholeDigits : ∀ c ∈ whole, c.isDigit = true)
      (fractionDigits : ∀ c ∈ fraction, c.isDigit = true) (some_digit : whole ≠ [])
      (value : Nat.ofDigitChars 10 (whole ++ fraction) 0 = d.significand.natAbs * tenTo 0)
      (power : d.exponent = -(fraction.length : Int)) :
      Layout d (whole ++ '.' :: fraction)

theorem layout_split {d : Decimal} {whole : Nat} (some_whole : 0 < whole)
    (power : d.exponent = -((d.digits.length - whole : Nat) : Int)) :
    Layout d (d.digits.take whole ++ '.' :: d.digits.drop whole) := by
  have value : Nat.ofDigitChars 10 (d.digits.take whole ++ d.digits.drop whole) 0 =
      d.significand.natAbs * tenTo 0 := by
    rw [List.take_append_drop]
    exact digits_plain d
  exact .pointed (fun c member => isDigit_of_mem_digits c (List.mem_of_mem_take member))
    (fun c member => isDigit_of_mem_digits c (List.mem_of_mem_drop member))
    (take_digits_ne_nil d some_whole) value
    (by rw [List.length_drop]; exact power)

theorem layout_fraction {d : Decimal} {fill : Nat}
    (power : d.exponent = -((fill + d.digits.length : Nat) : Int)) :
    Layout d ('0' :: '.' :: (List.replicate fill '0' ++ d.digits)) := by
  have zero_digit : ∀ c ∈ ['0'], c.isDigit = true := by
    intro c member
    rw [List.mem_singleton.mp member]
    decide
  have allDigits : ∀ c ∈ List.replicate fill '0' ++ d.digits, c.isDigit = true := by
    intro c member
    rcases List.mem_append.mp member with one | other
    · exact isDigit_of_mem_zeros c one
    · exact isDigit_of_mem_digits c other
  have value : Nat.ofDigitChars 10 (['0'] ++ (List.replicate fill '0' ++ d.digits)) 0 =
      d.significand.natAbs * tenTo 0 := by
    rw [List.singleton_append, ← List.cons_append, ← List.replicate_succ,
      Nat.ofDigitChars_append, ofDigitChars_zeros, Nat.mul_zero]
    exact digits_plain d
  apply Layout.pointed zero_digit allDigits (List.cons_ne_nil _ _) value
  rw [List.length_append, List.length_replicate]
  exact power

theorem unsignedChars_layout (d : Decimal) : Layout d d.unsignedChars := by
  unfold unsignedChars
  split
  · rename_i nonneg
    simp only
    split
    · have power : signed false d.exponent.toNat = d.exponent := by
        simp [signed]
        omega
      exact .scaled power
    · exact .filled (by omega) (by omega)
  · rename_i negative
    simp only
    split
    · rename_i some_whole
      exact layout_split some_whole (by omega)
    · split
      · have power : signed true (-d.exponent).toNat = d.exponent := by
          simp [signed]
          omega
        exact .scaled power
      · exact layout_fraction (by omega)

namespace Trimmed
variable {d : Decimal}

theorem minimal (trimmed : d.Trimmed) : Minimal d.significand.natAbs 0 := by
  rcases trimmed.2 with ends | isZero
  · exact Or.inl (by omega)
  · exact Or.inr ⟨by omega, rfl⟩

theorem minimal_filled (trimmed : d.Trimmed) {zeros : Nat} (power : d.exponent = zeros) :
    Minimal d.significand.natAbs zeros := by
  -- The zeros of the exponent are written out as well; zero itself has none.
  rcases trimmed.2 with ends | isZero
  · exact Or.inl (by omega)
  · have noPower := d.zero_form isZero
    exact Or.inr ⟨by omega, by omega⟩

end Trimmed

theorem readUnsigned_layout {d : Decimal} {chars : List Char} (layout : Layout d chars)
    (trimmed : d.Trimmed) (position : Nat) :
    readUnsigned d.isNegative position chars = .ok d := by
  cases layout with
  | @scaled negative n power =>
    exact readUnsigned_whole isDigit_of_mem_digits (digits_ne_nil d) (digits_plain d)
      trimmed.minimal trimmed.1 (Or.inr ⟨_, rfl⟩) (readExponent_text · n negative)
      (ofParts?_signed d (by omega))
  | @filled zeros few power =>
    have some_digit := List.append_ne_nil_of_left_ne_nil (digits_ne_nil d)
      (List.replicate zeros '0')
    rw [← List.append_nil (d.digits ++ _)]
    exact readUnsigned_whole isDigit_of_mem_filled some_digit (filled_number d zeros)
      (trimmed.minimal_filled power) trimmed.1 (Or.inl rfl) (fun stop => rfl)
      (ofParts?_signed d (by omega))
  | pointed wholeDigits fractionDigits some_digit value power =>
    exact readUnsigned_point wholeDigits fractionDigits some_digit value trimmed.minimal
      trimmed.1 (ofParts?_signed d (by omega))

theorem layout_head {d : Decimal} {chars : List Char} (layout : Layout d chars) :
    ∃ c rest, chars = c :: rest ∧ c.isDigit = true := by
  have head {digits rest : List Char} (allDigits : ∀ c ∈ digits, c.isDigit = true)
      (some_digit : digits ≠ []) :
      ∃ c others, digits ++ rest = c :: others ∧ c.isDigit = true := by
    obtain ⟨c, others, rfl⟩ := List.exists_cons_of_ne_nil some_digit
    exact ⟨c, others ++ rest, rfl, allDigits c (by simp)⟩
  cases layout with
  | scaled power => exact head isDigit_of_mem_digits (digits_ne_nil d)
  | filled few power => exact head isDigit_of_mem_digits (digits_ne_nil d)
  | pointed wholeDigits fractionDigits some_digit value power => exact head wholeDigits some_digit

theorem splitSign_digit {c : Char} (isDigit : c.isDigit = true) (rest : List Char) :
    splitSign (c :: rest) = (false, c :: rest) := by
  unfold splitSign
  split
  · rename_i same
    cases same
    exact absurd isDigit (by decide)
  · rename_i same
    cases same
    exact absurd isDigit (by decide)
  · rfl

theorem splitSign_chars (d : Decimal) : splitSign d.chars = (d.isNegative, d.unsignedChars) := by
  unfold chars
  cases negative : d.isNegative
  · obtain ⟨c, rest, form, isDigit⟩ := layout_head (unsignedChars_layout d)
    simp only [Bool.false_eq_true, if_false]
    rw [form]
    exact splitSign_digit isDigit rest
  · rfl

theorem unsignedChars_length_le (d : Decimal) : d.unsignedChars.length ≤ 73 := by
  have digits := d.digits_length_le
  have fits := d.exponent_fits
  have power {n : Nat} (small : n ≤ exponentBound) : (Nat.toDigits 10 n).length ≤ 10 := by
    unfold exponentBound at small
    exact (Nat.length_toDigits_le_iff (by decide) (by decide)).mpr (by omega)
  unfold FitsSigned at fits
  have whole := power (n := d.exponent.toNat) (by omega)
  have scale := power (n := (-d.exponent).toNat) (by omega)
  unfold unsignedChars maxPadding
  simp only
  split <;> split
  · simp only [List.length_append, List.length_cons]
    omega
  · simp only [List.length_append, List.length_replicate]
    omega
  · simp only [List.length_append, List.length_cons, List.length_take, List.length_drop]
    omega
  · split
    · simp only [List.length_append, List.length_cons]
      omega
    · simp only [List.length_append, List.length_cons, List.length_replicate]
      omega

theorem text_length_le (d : Decimal) : d.text.toList.length ≤ 74 := by
  have unsigned := d.unsignedChars_length_le
  unfold text chars
  rw [String.toList_ofList]
  split
  · exact Nat.succ_le_succ unsigned
  · omega

theorem trimmed_reads_back {d : Decimal} (trimmed : d.Trimmed) : read d.text = .ok d := by
  unfold read text
  rw [String.toList_ofList, splitSign_chars]
  exact readUnsigned_layout (unsignedChars_layout d) trimmed _

end Decimal
end EntityCatalog
