import EntityCatalog.Proofs.Decimal.Numeral
import EntityCatalog.Proofs.Decimal.Reading

/- Which texts are read as decimals, and as which. Whatever is read has the form of a numeral and the
   value of one. A numeral is refused only for overflow, and only if its digits without the zeros at
   both ends, or the power of ten that these digits then have, are out of range. -/
namespace EntityCatalog

def withoutLeadingZeros (digits : List Char) : List Char := digits.dropWhile (· == '0')

def strippedDigits (digits : List Char) : List Char :=
  ((withoutLeadingZeros digits).reverse.dropWhile (· == '0')).reverse

/-- The zeros at the end of the digits; digits that are zeros throughout are all in front. -/
def trailingZeros (digits : List Char) : Nat :=
  ((withoutLeadingZeros digits).reverse.takeWhile (· == '0')).length

theorem takeWhile_zeros (chars : List Char) :
    chars.takeWhile (· == '0') =
      List.replicate (chars.takeWhile (· == '0')).length '0' := by
  refine List.eq_replicate_iff.mpr ⟨rfl, fun c member => ?_⟩
  have zero := List.all_eq_true.mp (List.all_takeWhile (p := (· == '0')) (l := chars)) c member
  simpa using zero

theorem head_dropWhile_zeros {chars rest : List Char} {c : Char}
    (ended : chars.dropWhile (· == '0') = c :: rest) : c ≠ '0' := by
  have stops := List.head_dropWhile_not (p := (· == '0')) (l := chars) (by simp [ended])
  simpa [ended] using stops

theorem withoutLeadingZeros_number (digits : List Char) :
    Nat.ofDigitChars 10 (withoutLeadingZeros digits) 0 = Nat.ofDigitChars 10 digits 0 := by
  conv => rhs; rw [← List.takeWhile_append_dropWhile (p := (· == '0')) (l := digits)]
  rw [takeWhile_zeros, Nat.ofDigitChars_append, ofDigitChars_zeros, Nat.mul_zero]
  rfl

theorem withoutLeadingZeros_split (digits : List Char) :
    withoutLeadingZeros digits =
      strippedDigits digits ++ List.replicate (trailingZeros digits) '0' := by
  have parts := List.takeWhile_append_dropWhile (p := (· == '0'))
    (l := (withoutLeadingZeros digits).reverse)
  rw [takeWhile_zeros] at parts
  have turned := congrArg List.reverse parts
  rw [List.reverse_append, List.reverse_replicate, List.reverse_reverse] at turned
  exact turned.symm

theorem strippedDigits_number (digits : List Char) :
    Nat.ofDigitChars 10 digits 0 =
      Nat.ofDigitChars 10 (strippedDigits digits) 0 * tenTo (trailingZeros digits) := by
  rw [← withoutLeadingZeros_number, withoutLeadingZeros_split, Nat.ofDigitChars_append,
    ofDigitChars_zeros, Nat.mul_comm]

theorem strippedDigits_minimal {digits : List Char} (allDigits : ∀ c ∈ digits, c.isDigit = true) :
    Decimal.Minimal (Nat.ofDigitChars 10 (strippedDigits digits) 0) (trailingZeros digits) := by
  have split := withoutLeadingZeros_split digits
  cases ended : (withoutLeadingZeros digits).reverse.dropWhile (· == '0') with
  | nil =>
    have nothing : strippedDigits digits = [] := by rw [strippedDigits, ended]; rfl
    rw [nothing, List.nil_append] at split
    refine Or.inr ⟨by rw [nothing]; rfl, ?_⟩
    cases zeros : trailingZeros digits with
    | zero => rfl
    | succ more =>
      rw [zeros, List.replicate_succ] at split
      exact absurd rfl (head_dropWhile_zeros split)
  | cons c others =>
    have last : strippedDigits digits = others.reverse ++ [c] := by
      rw [strippedDigits, ended, List.reverse_cons]
    have member : c ∈ withoutLeadingZeros digits := by
      rw [split, last]
      simp
    have isDigit := allDigits c ((List.dropWhile_sublist _).mem member)
    have number := Decimal.Scan.digit_number isDigit (head_dropWhile_zeros ended)
    apply Or.inl
    rw [last, Nat.ofDigitChars_append, Nat.ofDigitChars_cons, Nat.ofDigitChars_nil]
    omega

namespace Numeral

def strippedExponent (n : Numeral) : Int :=
  n.explicit - (n.fraction.length : Int) + trailingZeros n.digits

/-- What a literal needs to be read: no more than this is checked. -/
def Fits (n : Numeral) : Prop :=
  Nat.ofDigitChars 10 (strippedDigits n.digits) 0 < significandBound ∧
    FitsSigned exponentBound n.strippedExponent

instance (n : Numeral) : Decidable n.Fits := inferInstanceAs (Decidable (_ ∧ _))

theorem stripped_value (n : Numeral) :
    scaled (Decimal.signed n.mark.isMinus (Nat.ofDigitChars 10 (strippedDigits n.digits) 0))
      n.strippedExponent = n.value := by
  have le : n.explicit - (n.fraction.length : Int) ≤ n.strippedExponent := by
    unfold strippedExponent
    omega
  have zeros : (n.strippedExponent - (n.explicit - (n.fraction.length : Int))).toNat =
      trailingZeros n.digits := by
    unfold strippedExponent
    omega
  rw [scaled_lower le, zeros, value, strippedDigits_number n.digits]
  unfold Decimal.signed
  cases n.mark.isMinus with
  | true =>
    simp only [if_true, Int.natCast_mul]
    rw [Int.neg_mul]
  | false => simp only [Bool.false_eq_true, if_false, Int.natCast_mul]

def scan (n : Numeral) : Decimal.Scan :=
  match n.fraction? with
  | none => Decimal.Scan.start.digits n.whole
  | some fraction => (Decimal.Scan.start.digits n.whole).withPoint.digits fraction

end Numeral

namespace Decimal

theorem scan_of_numeral {n : Numeral} (well_formed : n.WellFormed) :
    n.scan.significand = Nat.ofDigitChars 10 (strippedDigits n.digits) 0 ∧
      n.scan.pendingZeros = trailingZeros n.digits ∧
      n.scan.exponent = -(n.fraction.length : Int) ∧ n.scan.digitSeen = true := by
  have minimal := strippedDigits_minimal well_formed.allDigits
  have value := strippedDigits_number n.digits
  cases pointed : n.fraction? with
  | none =>
    have none_behind : n.fraction = [] := by rw [Numeral.fraction, pointed]; rfl
    have whole : n.digits = n.whole := by rw [Numeral.digits, none_behind, List.append_nil]
    have gathered : n.scan = Scan.start.digits n.whole := by rw [Numeral.scan, pointed]
    have some_digit := well_formed.some_digit
    rw [whole] at minimal value some_digit ⊢
    rw [gathered, none_behind]
    obtain ⟨significand, zeros⟩ :=
      Scan.digits_eq well_formed.wholeDigits Scan.start_tight value minimal
    exact ⟨significand, zeros, Scan.start_digits_exponent n.whole,
      Scan.digits_digitSeen (Or.inl some_digit)⟩
  | some fraction =>
    have behind := Numeral.fraction_of_some pointed
    have gathered : n.scan = (Scan.start.digits n.whole).withPoint.digits fraction := by
      rw [Numeral.scan, pointed]
    have fractionDigits := well_formed.fractionDigits
    have some_digit := well_formed.some_digit
    have together : n.digits = n.whole ++ fraction := by rw [Numeral.digits, behind]
    rw [together] at some_digit value minimal ⊢
    rw [behind] at fractionDigits ⊢
    rw [gathered]
    obtain ⟨significand, zeros⟩ :=
      Scan.pointed_digits_eq well_formed.wholeDigits fractionDigits value minimal
    refine ⟨significand, zeros, ?_, ?_⟩
    · rw [Scan.digits_exponent]
      have half : (Scan.start.digits n.whole).withPoint.exponent = 0 :=
        Scan.start_digits_exponent n.whole
      rw [half, Int.zero_sub]
      rfl
    · apply Scan.digits_digitSeen
      by_cases later : fraction = []
      · rw [later, List.append_nil] at some_digit
        exact Or.inr (Scan.digits_digitSeen (Or.inl some_digit))
      · exact Or.inl later

theorem scanDigits_powerChars {scan : Scan} (seen : scan.digitSeen = true) (position : Nat)
    {power? : Option PowerPart} (well_formed : ∀ power, power? = some power → power.WellFormed) :
    scanDigits scan position (powerChars power?) = .ok (scan, position, powerChars power?) := by
  cases power? with
  | none => rfl
  | some power =>
    have marker := (well_formed power rfl).marker
    rw [powerChars, PowerPart.chars, scanDigits_cons]
    rcases marker with small | capital
    · rw [small, if_neg (by decide), if_neg (by decide), if_neg (fun both => by simp at both),
        if_pos ⟨Or.inl rfl, seen⟩]
    · rw [capital, if_neg (by decide), if_neg (by decide), if_neg (fun both => by simp at both),
        if_pos ⟨Or.inr rfl, seen⟩]

theorem scanDigits_numeral {n : Numeral} (well_formed : n.WellFormed) (position : Nat) :
    (n.scan.significand < significandBound →
      ∃ stop, scanDigits .start position
          (n.whole ++ (pointChars n.fraction? ++ powerChars n.power?)) =
        .ok (n.scan, stop, powerChars n.power?)) ∧
    (significandBound ≤ n.scan.significand →
      scanDigits .start position (n.whole ++ (pointChars n.fraction? ++ powerChars n.power?)) =
        .error .overflow) := by
  have seen := (scan_of_numeral well_formed).2.2.2
  have ended (stop : Nat) := scanDigits_powerChars seen stop well_formed.power
  have wholeDigits := well_formed.wholeDigits
  cases pointed : n.fraction? with
  | none =>
    have gathered : n.scan = Scan.start.digits n.whole := by rw [Numeral.scan, pointed]
    rw [gathered] at ended ⊢
    simp only [pointChars, List.nil_append]
    constructor
    · intro fits
      exact ⟨_, (scanDigits_digits position _ wholeDigits fits).trans (ended _)⟩
    · exact scanDigits_overflow position _ wholeDigits (by decide)
  | some fraction =>
    let half := (Scan.start.digits n.whole).withPoint
    have gathered : n.scan = half.digits fraction := by rw [Numeral.scan, pointed]
    have fractionDigits := well_formed.fractionDigits
    rw [Numeral.fraction_of_some pointed] at fractionDigits
    rw [gathered] at ended ⊢
    have to_point (fits : (Scan.start.digits n.whole).significand < significandBound) :
        scanDigits .start position (n.whole ++ (pointChars (some fraction) ++ powerChars n.power?)) =
          scanDigits half (position + n.whole.length + 1) (fraction ++ powerChars n.power?) := by
      rw [scanDigits_digits position _ wholeDigits fits]
      exact scanDigits_point (Scan.digits_pointSeen Scan.start n.whole) _ _
    constructor
    · intro fits
      have half_fits : half.significand < significandBound :=
        Nat.lt_of_le_of_lt (Scan.digits_significand_le half fraction) fits
      rw [to_point half_fits]
      exact ⟨_, (scanDigits_digits _ _ fractionDigits fits).trans (ended _)⟩
    · intro large
      by_cases half_fits : half.significand < significandBound
      · rw [to_point half_fits]
        exact scanDigits_overflow _ _ fractionDigits half_fits large
      · exact scanDigits_overflow position _ wholeDigits (by decide) (Nat.le_of_not_lt half_fits)

theorem splitSign_mark (mark : Mark) {rest : List Char} (unsigned : Unsigned rest) :
    splitSign (mark.chars ++ rest) = (mark.isMinus, rest) := by
  cases mark with
  | bare =>
    rw [Mark.chars, List.nil_append]
    unfold splitSign
    split
    · exact absurd rfl (unsigned _ _ rfl).2
    · exact absurd rfl (unsigned _ _ rfl).1
    · rfl
  | plus => rfl
  | minus => rfl

theorem readExponent_powerChars {n : Numeral} (well_formed : n.WellFormed) (position : Nat) :
    readExponent position (powerChars n.power?) = .ok n.explicit := by
  unfold Numeral.explicit
  cases found : n.power? with
  | none => rfl
  | some power =>
    have part := well_formed.power power found
    rw [powerChars, PowerPart.chars, readExponent_eq, splitSign_mark power.mark part.unsigned,
      if_neg]
    · rfl
    · rintro (none | other)
      · exact part.some_digit none
      · rw [List.all_eq_true.mpr part.allDigits] at other
        cases other

theorem read_numeral {n : Numeral} (well_formed : n.WellFormed) :
    (n.Fits → ∃ d, read n.text = .ok d ∧ d.value = n.value) ∧
      (¬ n.Fits → read n.text = .error .overflow) := by
  obtain ⟨significand, zeros, exponent, seen⟩ := scan_of_numeral well_formed
  have power := readExponent_powerChars well_formed
  have sum : n.scan.exponent + n.scan.pendingZeros + n.explicit = n.strippedExponent := by
    rw [exponent, zeros, Numeral.strippedExponent]
    omega
  unfold read
  rw [Numeral.text, String.toList_ofList, Numeral.chars, splitSign_mark _ well_formed.unsigned]
  simp only
  generalize (n.mark.chars ++ _).length - _ = position
  obtain ⟨scanned, overflows⟩ := scanDigits_numeral well_formed position
  rw [significand] at scanned overflows
  constructor
  · rintro ⟨fits, power_fits⟩
    have range : FitsSigned significandBound
        (signed n.mark.isMinus (Nat.ofDigitChars 10 (strippedDigits n.digits) 0)) := by
      unfold FitsSigned signed
      split <;> omega
    obtain ⟨stop, scanned⟩ := scanned fits
    obtain ⟨d, made⟩ := ofParts?_isSome range power_fits
    refine ⟨d, readUnsigned_eq_ok.mpr ⟨_, _, _, _, scanned, seen, power stop, ?_⟩, ?_⟩
    · rw [sum, significand, made]
    · rw [ofParts?_value made, Numeral.stripped_value]
  · intro large
    by_cases fits : Nat.ofDigitChars 10 (strippedDigits n.digits) 0 < significandBound
    · obtain ⟨stop, scanned⟩ := scanned fits
      have power_large : ¬ FitsSigned exponentBound n.strippedExponent := fun in_range =>
        large ⟨fits, in_range⟩
      unfold readUnsigned
      simp only [scanned, seen, Bool.true_eq_false, if_false, power, sum,
        ofParts?_of_large power_large]
    · exact readUnsigned_of_fault (overflows (Nat.le_of_not_lt fits))

/-- Digits with at most one point among them, which take one scan to the next. -/
def Spells (scan next : Scan) (chars rest : List Char) : Prop :=
  ∃ whole fraction?, chars = whole ++ (pointChars fraction? ++ rest) ∧
    (∀ c ∈ whole ++ fraction?.getD [], c.isDigit = true) ∧
    (scan.pointSeen = true → fraction? = none) ∧
    (next.digitSeen = true → scan.digitSeen = true ∨ whole ++ fraction?.getD [] ≠ [])

namespace Spells
variable {scan after next : Scan} {chars rest : List Char}

theorem nothing (scan : Scan) (rest : List Char) : Spells scan scan rest rest :=
  ⟨[], none, rfl, fun _ member => absurd member List.not_mem_nil, fun _ => rfl, Or.inl⟩

theorem digit {c : Char} (isDigit : c.isDigit = true) (pointSeen : after.pointSeen = scan.pointSeen)
    (later : Spells after next chars rest) : Spells scan next (c :: chars) rest := by
  obtain ⟨whole, fraction?, rfl, allDigits, one_point, -⟩ := later
  refine ⟨c :: whole, fraction?, rfl, ?_, pointSeen ▸ one_point, fun _ => Or.inr (by simp)⟩
  intro d member
  rcases List.mem_cons.mp member with rfl | member
  · exact isDigit
  · exact allDigits d member

theorem point (first : scan.pointSeen = false) (later : Spells scan.withPoint next chars rest) :
    Spells scan next ('.' :: chars) rest := by
  obtain ⟨whole, fraction?, rfl, allDigits, one_point, seen⟩ := later
  obtain rfl := one_point rfl
  rw [Option.getD_none, List.append_nil] at allDigits seen
  refine ⟨[], some whole, rfl, allDigits, fun again => ?_, seen⟩
  rw [first] at again
  cases again

end Spells

theorem spells_of_scanDigits {scan next : Scan} {position stop : Nat} {chars rest : List Char}
    (read : scanDigits scan position chars = .ok (next, stop, rest)) :
    Spells scan next chars rest ∧
      ∀ marker others, rest = marker :: others → marker = 'e' ∨ marker = 'E' := by
  -- By induction on the characters, one step of the reader for each.
  induction chars generalizing scan position with
  | nil =>
    cases read
    refine ⟨Spells.nothing _ [], fun marker others same => ?_⟩
    cases same
  | cons c others ih =>
    rw [scanDigits_cons] at read
    by_cases zero : c = '0'
    · rw [if_pos zero] at read
      obtain ⟨later, marked⟩ := ih read
      have same_point : scan.zeroDigit.pointSeen = scan.pointSeen := rfl
      exact ⟨later.digit (by rw [zero]; decide) same_point, marked⟩
    · rw [if_neg zero] at read
      by_cases isDigit : c.isDigit = true
      · rw [if_pos isDigit] at read
        split at read
        · rename_i after found
          obtain ⟨rfl, -⟩ := (nonzeroDigit?_eq_some zero).mp found
          obtain ⟨later, marked⟩ := ih read
          exact ⟨later.digit isDigit (Scan.digits_pointSeen scan [c]), marked⟩
        · cases read
      · rw [if_neg isDigit] at read
        split at read
        · rename_i point
          obtain ⟨rfl, first⟩ := point
          obtain ⟨later, marked⟩ := ih read
          exact ⟨later.point first, marked⟩
        · split at read
          · rename_i marker
            cases read
            refine ⟨Spells.nothing _ (c :: others), fun found behind same => ?_⟩
            rw [← (List.cons.inj same).1]
            exact marker.1
          · cases read

theorem splitSign_eq (chars : List Char) :
    ∃ mark : Mark, chars = mark.chars ++ (splitSign chars).2 := by
  unfold splitSign
  split
  · exact ⟨.minus, rfl⟩
  · exact ⟨.plus, rfl⟩
  · exact ⟨.bare, rfl⟩

theorem power_of_readExponent {position : Nat} {rest : List Char} {explicit : Int}
    (read : readExponent position rest = .ok explicit)
    (marked : ∀ marker others, rest = marker :: others → marker = 'e' ∨ marker = 'E') :
    ∃ power?, rest = powerChars power? ∧ ∀ power, power? = some power → power.WellFormed := by
  cases rest with
  | nil => exact ⟨none, rfl, fun power found => by cases found⟩
  | cons marker others =>
    rw [readExponent_eq] at read
    split at read
    · cases read
    · rename_i good
      obtain ⟨some_digit, allDigits⟩ := not_or.mp good
      obtain ⟨mark, same⟩ := splitSign_eq others
      refine ⟨some ⟨marker, mark, (splitSign others).2⟩, ?_, fun power found => ?_⟩
      · rw [powerChars, PowerPart.chars, ← same]
      · cases found
        refine ⟨marked marker others rfl, List.all_eq_true.mp ?_, some_digit⟩
        simpa using allDigits

/-- Whatever is read is written as a numeral. -/
theorem numeral_of_read {text : String} {d : Decimal} (found : read text = .ok d) :
    ∃ n : Numeral, n.WellFormed ∧ n.text = text := by
  obtain ⟨mark, signed⟩ := splitSign_eq text.toList
  unfold read at found
  simp only at found
  obtain ⟨scan, stop, rest, explicit, scanned, seen, power, -⟩ := readUnsigned_eq_ok.mp found
  obtain ⟨⟨whole, fraction?, spelled, allDigits, -, some_digit⟩, marked⟩ :=
    spells_of_scanDigits scanned
  obtain ⟨power?, behind, well_formed⟩ := power_of_readExponent power marked
  refine ⟨⟨mark, whole, fraction?, power?⟩, ⟨allDigits, ?_, well_formed⟩, ?_⟩
  · exact (some_digit seen).resolve_left (by decide)
  · rw [Numeral.text, Numeral.chars, ← behind, ← spelled, ← signed, String.ofList_toList]

end Decimal

namespace Numeral

def padded (n : Numeral) (before behind : Nat) : Numeral :=
  { n with
    whole := List.replicate before '0' ++ n.whole
    fraction? := some (n.fraction ++ List.replicate behind '0') }

theorem padded_digits (n : Numeral) (before behind : Nat) :
    (n.padded before behind).digits =
      List.replicate before '0' ++ (n.digits ++ List.replicate behind '0') := by
  simp [padded, digits, fraction, List.append_assoc]

theorem padded_number (n : Numeral) (before behind : Nat) :
    Nat.ofDigitChars 10 (n.padded before behind).digits 0 =
      Nat.ofDigitChars 10 n.digits 0 * tenTo behind := by
  rw [padded_digits, Nat.ofDigitChars_append, ofDigitChars_zeros, Nat.mul_zero,
    Nat.ofDigitChars_append, ofDigitChars_zeros, Nat.mul_comm]

theorem WellFormed.padded {n : Numeral} (well_formed : n.WellFormed) (before behind : Nat) :
    (n.padded before behind).WellFormed := by
  refine ⟨fun c member => ?_, fun empty => ?_, well_formed.power⟩
  · rw [padded_digits] at member
    rcases List.mem_append.mp member with front | later
    · exact Decimal.isDigit_of_mem_zeros c front
    · rcases List.mem_append.mp later with own | back
      · exact well_formed.allDigits c own
      · exact Decimal.isDigit_of_mem_zeros c back
  · rw [padded_digits] at empty
    exact well_formed.some_digit
      (List.append_eq_nil_iff.mp (List.append_eq_nil_iff.mp empty).2).1

theorem padded_stripped {n : Numeral} (well_formed : n.WellFormed)
    (nonzero : Nat.ofDigitChars 10 n.digits 0 ≠ 0) (before behind : Nat) :
    Nat.ofDigitChars 10 (strippedDigits (n.padded before behind).digits) 0 =
        Nat.ofDigitChars 10 (strippedDigits n.digits) 0 ∧
      (n.padded before behind).strippedExponent = n.strippedExponent := by
  -- The zeros are stripped again, those behind the point with the places that they take.
  have minimal := strippedDigits_minimal (well_formed.padded before behind).allDigits
  have value := strippedDigits_number (n.padded before behind).digits
  have own := strippedDigits_number n.digits
  have last : Nat.ofDigitChars 10 (strippedDigits n.digits) 0 % 10 ≠ 0 := by
    rcases strippedDigits_minimal well_formed.allDigits with last | ⟨zero, -⟩
    · exact last
    · rw [zero, Nat.zero_mul] at own
      exact absurd own nonzero
  rw [padded_number, own, Nat.mul_assoc, ← tenTo_add] at value
  obtain ⟨digits, zeros⟩ := Decimal.minimal_unique minimal (Or.inl last) value.symm
  refine ⟨digits, ?_⟩
  have places : (n.padded before behind).fraction.length = n.fraction.length + behind := by
    simp [padded, fraction]
  have power : (n.padded before behind).explicit = n.explicit := rfl
  rw [strippedExponent, strippedExponent, zeros, places, power]
  omega

end Numeral

namespace Decimal

theorem read_padded {n : Numeral} (well_formed : n.WellFormed)
    (nonzero : Nat.ofDigitChars 10 n.digits 0 ≠ 0) (before behind : Nat) :
    read (n.padded before behind).text = read n.text := by
  obtain ⟨digits, exponent⟩ := Numeral.padded_stripped well_formed nonzero before behind
  obtain ⟨accepted, refused⟩ := read_numeral well_formed
  obtain ⟨padded_accepted, padded_refused⟩ := read_numeral (well_formed.padded before behind)
  have fits_iff : (n.padded before behind).Fits ↔ n.Fits := by
    rw [Numeral.Fits, Numeral.Fits, digits, exponent]
  have values : (n.padded before behind).value = n.value := by
    rw [← Numeral.stripped_value, ← Numeral.stripped_value, digits, exponent]
    rfl
  by_cases fits : n.Fits
  · obtain ⟨d, found, value⟩ := accepted fits
    obtain ⟨e, other_found, other_value⟩ := padded_accepted (fits_iff.mpr fits)
    rw [found, other_found, eq_of_value_eq (other_value.trans (values.trans value.symm))]
  · rw [refused fits, padded_refused (mt fits_iff.mp fits)]

/-- What is read has the form of a numeral and the value of it. A numeral is read exactly if its
    digits without the zeros at both ends are in range, and the power of ten that they have; if not,
    that is reported as an overflow. Zeros that do not count may be added in any number. -/
theorem literals_read_exactly (text : String) (short : text.utf8ByteSize < UInt32.size) :
    (∀ d, parse text = .ok d →
      ∃ n : Numeral, n.WellFormed ∧ n.text = text ∧ d.value = n.value) ∧
    ∀ n : Numeral, n.WellFormed → n.text = text →
      ((∃ d, parse text = .ok d) ↔ n.Fits) ∧
      (¬ n.Fits → parse text = .error .overflow) ∧
      (∀ d, parse text = .ok d → d.value = n.value) ∧
      (Nat.ofDigitChars 10 n.digits 0 ≠ 0 → ∀ before behind,
        (n.padded before behind).text.utf8ByteSize < UInt32.size →
          parse (n.padded before behind).text = parse text) := by
  have in_words {text : String} (short : text.utf8ByteSize < UInt32.size) : parse text = read text :=
    parse_eq_read (Nat.le_of_lt_succ short)
  have settled (n : Numeral) (well_formed : n.WellFormed) (same : n.text = text) :
      ((∃ d, parse text = .ok d) ↔ n.Fits) ∧ (¬ n.Fits → parse text = .error .overflow) ∧
        ∀ d, parse text = .ok d → d.value = n.value := by
    obtain ⟨accepted, refused⟩ := read_numeral well_formed
    rw [in_words short, ← same]
    by_cases fits : n.Fits
    · obtain ⟨d, found, value⟩ := accepted fits
      refine ⟨⟨fun _ => fits, fun _ => ⟨d, found⟩⟩, fun large => absurd fits large, ?_⟩
      intro e other_found
      rw [found, Except.ok.injEq] at other_found
      rw [← other_found, value]
    · have fault := refused fits
      rw [fault]
      refine ⟨⟨fun ⟨d, found⟩ => (by cases found), fun both => absurd both fits⟩, fun _ => rfl, ?_⟩
      intro d found
      cases found
  constructor
  · intro d found
    obtain ⟨n, well_formed, same⟩ := numeral_of_read (in_words short ▸ found)
    exact ⟨n, well_formed, same, (settled n well_formed same).2.2 d found⟩
  · intro n well_formed same
    obtain ⟨accepted_iff, refused, value⟩ := settled n well_formed same
    refine ⟨accepted_iff, refused, value, fun nonzero before behind padded_short => ?_⟩
    rw [in_words padded_short, in_words short, ← same]
    exact read_padded well_formed nonzero before behind

def highestNumeral : Numeral :=
  { mark := .minus
    whole := ['0', '0']
    fraction? := some "170141183460469231731687303715884105727000".toList
    power? := some ⟨'e', .plus, "2147483686".toList⟩ }

theorem highest_numeral_read :
    highestNumeral.text = "-00.170141183460469231731687303715884105727000e+2147483686" ∧
      highestNumeral.text.utf8ByteSize < UInt32.size ∧ highestNumeral.WellFormed ∧
      ∃ d, parse highestNumeral.text = .ok d ∧ d.value = highestNumeral.value ∧
        (highestNumeral.padded 50 50).text.utf8ByteSize < UInt32.size ∧
        parse (highestNumeral.padded 50 50).text = .ok d := by
  have written : highestNumeral.text =
      "-00.170141183460469231731687303715884105727000e+2147483686" := by decide +kernel
  have short : highestNumeral.text.utf8ByteSize < UInt32.size := by decide +kernel
  have padded_short : (highestNumeral.padded 50 50).text.utf8ByteSize < UInt32.size := by
    decide +kernel
  have well_formed : highestNumeral.WellFormed := by
    refine ⟨List.all_eq_true.mp (by decide +kernel), by decide +kernel, fun power found => ?_⟩
    cases found
    exact ⟨Or.inl rfl, List.all_eq_true.mp (by decide +kernel), by decide +kernel⟩
  obtain ⟨accepted_iff, -, value, padded⟩ :=
    (literals_read_exactly highestNumeral.text short).2 highestNumeral well_formed rfl
  obtain ⟨d, found⟩ := accepted_iff.mpr (by decide +kernel)
  refine ⟨written, short, well_formed, d, found, value d found, padded_short, ?_⟩
  rw [padded (by decide +kernel) 50 50 padded_short, found]

end Decimal
end EntityCatalog
