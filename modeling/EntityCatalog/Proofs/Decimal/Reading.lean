import EntityCatalog.Decimal.Text
import EntityCatalog.Proofs.Decimal.Text
import EntityCatalog.Proofs.Results

/- Reading in words gives what reading in unbounded numbers gives. Of the three checks of a
   significand only the last one decides, a count of zeros cannot reach its greatest number in a
   text that is not as long, and an exponent part that leaves its word is out of range for every
   such text. -/
namespace EntityCatalog

theorem word?_eq (bound : Nat) (n : Int) :
    word? bound n = if FitsSigned bound n then some n else none := by
  cases n with
  | ofNat n =>
    have same : FitsSigned bound (.ofNat n) ↔ n < bound := by
      rw [FitsSigned, Int.ofNat_eq_natCast]
      omega
    simp only [word?, same]
  | negSucc n =>
    have same : FitsSigned bound (.negSucc n) ↔ n < bound := by
      rw [FitsSigned, Int.negSucc_eq]
      omega
    simp only [word?, same]

theorem word?_of_fits {bound : Nat} {n : Int} (fits : FitsSigned bound n) :
    word? bound n = some n := by
  rw [word?_eq, if_pos fits]

theorem word?_eq_some {bound : Nat} {n m : Int} :
    word? bound n = some m ↔ FitsSigned bound n ∧ n = m := by
  rw [word?_eq, Option.ite_none_right_eq_some, Option.some.injEq]

theorem word?_of_large {bound : Nat} {n : Int} (large : ¬ FitsSigned bound n) :
    word? bound n = none := by
  rw [word?_eq, if_neg large]

namespace Decimal
namespace WordScan

def scan (words : WordScan) : Scan :=
  ⟨words.significand.toNat, words.exponent, words.pendingZeros, decide (0 < words.digitCount),
    words.pointSeen⟩

/-- No word is left while so many characters are still to come. -/
structure InWords (words : WordScan) (left : Nat) : Prop where
  significand : 0 ≤ words.significand ∧ words.significand < significandBound
  tight : words.significand = 0 → words.pendingZeros = 0
  zeros : words.pendingZeros + left ≤ greatestCount
  exponent : words.exponent ≤ 0 ∧ left - words.exponent ≤ greatestCount

theorem start_inWords {left : Nat} (short : left ≤ greatestCount) : start.InWords left := by
  constructor
  · decide
  · exact fun _ => rfl
  · simpa [start] using short
  · simp only [start]
    omega

variable {words next : WordScan} {left : Nat}

theorem InWords.counted (fits : words.InWords (left + 1)) :
    nextCount words.pendingZeros = words.pendingZeros + 1 := by
  have room := fits.zeros
  unfold nextCount
  omega

theorem shifted_range (fits : words.InWords (left + 1)) :
    words.shifted ≤ 0 ∧ left - words.shifted ≤ greatestCount := by
  have range := fits.exponent
  unfold shifted
  split <;> omega

theorem zeroDigit_scan (fits : words.InWords (left + 1)) :
    words.zeroDigit.scan = words.scan.zeroDigit := by
  have sign := fits.significand.1
  unfold zeroDigit Scan.zeroDigit
  simp only [scan, fits.counted, Nat.zero_lt_succ, decide_true, Scan.mk.injEq, true_and, and_true]
  constructor
  · rfl
  · by_cases zero : words.significand = 0
    · have none := fits.tight zero
      simp [zero, none]
    · have some_digit : words.significand.toNat ≠ 0 := by omega
      simp [zero, some_digit]

theorem zeroDigit_inWords (fits : words.InWords (left + 1)) : words.zeroDigit.InWords left := by
  have room := fits.zeros
  constructor
  · exact fits.significand
  · intro zero
    have zero : words.significand = 0 := zero
    simp [zeroDigit, zero, fits.tight zero]
  · simp only [zeroDigit, fits.counted]
    split <;> omega
  · exact shifted_range fits

def raised (words : WordScan) (digit : Nat) : Int :=
  words.significand * tenTo (words.pendingZeros + 1) + digit

theorem parts_fit (fits : words.InWords (left + 1)) {digit : Nat}
    (sum_fits : words.raised digit < significandBound) :
    FitsSigned significandBound (tenTo (words.pendingZeros + 1)) ∧
      FitsSigned significandBound (words.significand * tenTo (words.pendingZeros + 1)) ∧
      FitsSigned significandBound (words.raised digit) := by
  have sign := fits.significand.1
  have power := tenTo_pos (words.pendingZeros + 1)
  have product : 0 ≤ words.significand * tenTo (words.pendingZeros + 1) :=
    Int.mul_nonneg sign (Int.natCast_nonneg _)
  have power_fits : (tenTo (words.pendingZeros + 1) : Int) < significandBound := by
    by_cases zero : words.significand = 0
    · rw [fits.tight zero]
      decide
    · have grown := Int.mul_le_mul_of_nonneg_right (show 1 ≤ words.significand by omega)
        (Int.natCast_nonneg (tenTo (words.pendingZeros + 1)))
      unfold raised at sum_fits
      omega
  unfold FitsSigned
  unfold raised at *
  omega

theorem nonzeroDigit?_eq (fits : words.InWords (left + 1)) (digit : Nat) :
    words.nonzeroDigit? digit =
      if words.raised digit < significandBound then
        some ⟨words.raised digit, words.shifted, words.digitCount + 1, words.pointSeen, 0⟩
      else none := by
  unfold nonzeroDigit?
  rw [fits.counted]
  split
  · rename_i sum_fits
    obtain ⟨power_fits, product_fits, all_fit⟩ := parts_fit fits sum_fits
    have sum_word := word?_of_fits all_fit
    unfold raised at sum_word
    simp only [word?_of_fits power_fits, word?_of_fits product_fits, Option.bind_some, sum_word,
      Option.map_some]
    rfl
  · rename_i large
    have sum_large : ¬ FitsSigned significandBound
        (words.significand * tenTo (words.pendingZeros + 1) + digit) := fun both => large both.2
    by_cases power_fits : FitsSigned significandBound (tenTo (words.pendingZeros + 1))
    · rw [word?_of_fits power_fits, Option.bind_some]
      by_cases product_fits : FitsSigned significandBound
          (words.significand * tenTo (words.pendingZeros + 1))
      · rw [word?_of_fits product_fits, Option.bind_some, word?_of_large sum_large]
        rfl
      · rw [word?_of_large product_fits]
        rfl
    · rw [word?_of_large power_fits]
      rfl

theorem nonzeroDigit?_scan (fits : words.InWords (left + 1)) (digit : Nat) :
    words.scan.nonzeroDigit? digit = (words.nonzeroDigit? digit).map scan := by
  have sign := fits.significand.1
  have sum : (words.scan.significand * tenTo (words.scan.pendingZeros + 1) + digit : Nat) =
      words.raised digit := by
    simp only [scan, raised, Int.natCast_add, Int.natCast_mul, Int.toNat_of_nonneg sign]
  rw [nonzeroDigit?_eq fits]
  unfold Scan.nonzeroDigit?
  simp only
  by_cases large : words.raised digit < significandBound
  · rw [if_pos (by omega), if_pos large]
    simp only [scan, Option.map_some, Nat.zero_lt_succ, decide_true, ← sum, Int.toNat_natCast]
    rfl
  · rw [if_neg (by omega), if_neg large]
    rfl

theorem nonzeroDigit?_inWords (fits : words.InWords (left + 1)) {digit : Nat}
    (nonzero : 0 < digit) (made : words.nonzeroDigit? digit = some next) : next.InWords left := by
  have sign := fits.significand.1
  have product : 0 ≤ words.significand * tenTo (words.pendingZeros + 1) :=
    Int.mul_nonneg sign (Int.natCast_nonneg _)
  have room := fits.zeros
  rw [nonzeroDigit?_eq fits] at made
  split at made
  · rename_i sum_fits
    cases made
    constructor
    · unfold raised at *
      exact ⟨by simp only; omega, sum_fits⟩
    · intro zero
      rfl
    · simp only
      omega
    · exact shifted_range fits
  · cases made

end WordScan

theorem gatherDigits_scan {words : WordScan} {chars : List Char} (position : Nat)
    (fits : words.InWords chars.length) :
    scanDigits words.scan position chars =
        (gatherDigits words position chars).map (fun found => (found.1.scan, found.2)) ∧
      ∀ next stop rest, gatherDigits words position chars = .ok (next, stop, rest) →
        next.InWords rest.length ∧ (rest = [] ∨ 0 < next.digitCount) := by
  -- By induction on the characters; the words are not left as long as the rest is short enough.
  induction chars generalizing words position with
  | nil =>
    refine ⟨rfl, fun next stop rest read => ?_⟩
    cases read
    exact ⟨fits, Or.inl rfl⟩
  | cons c others ih =>
    rw [scanDigits_cons, gatherDigits]
    by_cases zero : c = '0'
    · rw [if_pos zero, if_pos zero, ← WordScan.zeroDigit_scan fits]
      exact ih (position + 1) (WordScan.zeroDigit_inWords fits)
    · rw [if_neg zero, if_neg zero]
      by_cases isDigit : c.isDigit = true
      · have number := Scan.digit_number isDigit zero
        rw [if_pos isDigit, if_pos isDigit, WordScan.nonzeroDigit?_scan fits]
        cases made : words.nonzeroDigit? (c.toNat - '0'.toNat) with
        | none =>
          refine ⟨rfl, fun next stop rest read => ?_⟩
          cases read
        | some next =>
          exact ih (position + 1) (WordScan.nonzeroDigit?_inWords fits number.1 made)
      · rw [if_neg isDigit, if_neg isDigit]
        by_cases point : c = '.' ∧ words.pointSeen = false
        · have pointed : ({ words with pointSeen := true } : WordScan).InWords others.length := by
            obtain ⟨significand, tight, zeros, exponent⟩ := fits
            rw [List.length_cons] at zeros exponent
            exact ⟨significand, tight, by simp only; omega, by simp only; omega⟩
          rw [if_pos point, if_pos (show c = '.' ∧ words.scan.pointSeen = false from point)]
          exact ih (position + 1) pointed
        · rw [if_neg point, if_neg (show ¬ (c = '.' ∧ words.scan.pointSeen = false) from point)]
          by_cases marker : (c = 'e' ∨ c = 'E') ∧ 0 < words.digitCount
          · have seen : words.scan.digitSeen = true := decide_eq_true marker.2
            rw [if_pos marker, if_pos ⟨marker.1, seen⟩]
            refine ⟨rfl, fun next stop rest read => ?_⟩
            cases read
            exact ⟨fits, Or.inr marker.2⟩
          · have unseen : ¬ ((c = 'e' ∨ c = 'E') ∧ words.scan.digitSeen = true) :=
              fun both => marker ⟨both.1, of_decide_eq_true both.2⟩
            rw [if_neg marker, if_neg unseen]
            refine ⟨rfl, fun next stop rest read => ?_⟩
            cases read

theorem readExponent_eq (position : Nat) (marker : Char) (rest : List Char) :
    readExponent position (marker :: rest) =
      if (splitSign rest).2 = [] ∨ (splitSign rest).2.all Char.isDigit = false then
        .error (.invalidCharacter position marker)
      else .ok (signed (splitSign rest).1 (Nat.ofDigitChars 10 (splitSign rest).2 0)) := by
  unfold readExponent
  simp only
  by_cases bad : (splitSign rest).2 = [] ∨ (splitSign rest).2.all Char.isDigit = false
  · rw [if_pos bad, if_neg]
    rcases bad with none | other
    · exact fun both => both.1 none
    · exact fun both => Bool.false_ne_true (other.symm.trans both.2)
  · rw [if_neg bad, if_pos]
    simpa using bad

theorem addExponent_of_readExponent (stop : Nat) (rest : List Char) {exponent : Int}
    (small : FitsSigned (greatestCount + 1) exponent) :
    (∀ fault, readExponent stop rest = .error fault →
      addExponent stop exponent rest = .error fault) ∧
    ∀ explicit, readExponent stop rest = .ok explicit →
      if FitsSigned exponentBound (exponent + explicit) then
        addExponent stop exponent rest = .ok (exponent + explicit)
      else addExponent stop exponent rest = .error .overflow ∨
        addExponent stop exponent rest = .ok (exponent + explicit) := by
  -- An exponent part that leaves its word is out of range after the addition as well.
  unfold FitsSigned greatestCount at small
  cases rest with
  | nil =>
    refine ⟨fun fault read => (by cases read), fun explicit read => ?_⟩
    cases read
    rw [Int.add_zero]
    split
    · rfl
    · exact Or.inr rfl
  | cons marker others =>
    rw [readExponent_eq]
    unfold addExponent
    simp only
    by_cases bad : (splitSign others).2 = [] ∨ (splitSign others).2.all Char.isDigit = false
    · rw [if_pos bad, if_pos bad]
      refine ⟨fun fault read => ?_, fun explicit read => by cases read⟩
      cases read
      rfl
    · rw [if_neg bad, if_neg bad]
      refine ⟨fun fault read => (by cases read), fun explicit read => ?_⟩
      rw [Except.ok.inj read]
      split
      · rename_i fits
        obtain ⟨part_fits, total_fits⟩ :
            FitsSigned longBound explicit ∧ FitsSigned longBound (exponent + explicit) := by
          unfold FitsSigned longBound
          unfold FitsSigned exponentBound at fits
          omega
        simp only [word?_of_fits part_fits, word?_of_fits total_fits]
      · by_cases part_fits : FitsSigned longBound explicit
        · by_cases total_fits : FitsSigned longBound (exponent + explicit)
          · simp only [word?_of_fits part_fits, word?_of_fits total_fits]
            exact Or.inr trivial
          · simp only [word?_of_fits part_fits, word?_of_large total_fits]
            exact Or.inl trivial
        · simp only [word?_of_large part_fits]
          exact Or.inl trivial

theorem signed_toNat (negative : Bool) {n : Int} (nonneg : 0 ≤ n) :
    signed negative n.toNat = if negative then -n else n := by
  unfold signed
  rw [Int.toNat_of_nonneg nonneg]

theorem ofParts?_of_large {significand exponent : Int} (large : ¬ FitsSigned exponentBound exponent) :
    ofParts? significand exponent = none := by
  unfold ofParts?
  exact dif_neg fun both => large both.2

theorem parseUnsigned_eq (negative : Bool) (position : Nat) {chars : List Char}
    (short : chars.length ≤ greatestCount) :
    parseUnsigned negative position chars = readUnsigned negative position chars := by
  obtain ⟨scanned, kept⟩ := gatherDigits_scan position (WordScan.start_inWords short)
  have scanned : scanDigits .start position chars = _ := scanned
  unfold parseUnsigned readUnsigned
  cases gathered : gatherDigits .start position chars with
  | error fault => simp only [scanned, gathered, error_map]
  | ok found =>
    obtain ⟨words, stop, rest⟩ := found
    obtain ⟨fits, ended⟩ := kept words stop rest gathered
    simp only [scanned, gathered, ok_map]
    by_cases empty : words.digitCount = 0
    · have unseen : words.scan.digitSeen = false := decide_eq_false (by omega)
      have nothing : rest = [] := ended.resolve_right (by omega)
      rw [if_pos empty, if_pos unseen, nothing]
      rfl
    · have seen : words.scan.digitSeen = true := decide_eq_true (by omega)
      have not_empty : ¬ words.scan.digitSeen = false := by simp [seen]
      rw [if_neg empty, if_neg not_empty]
      have small : FitsSigned (greatestCount + 1) (words.exponent + words.pendingZeros) := by
        have zeros := fits.zeros
        have range := fits.exponent
        unfold FitsSigned
        omega
      obtain ⟨same_fault, same_sum⟩ := addExponent_of_readExponent stop rest small
      cases power : readExponent stop rest with
      | error fault => simp only [same_fault fault power]
      | ok explicit =>
        have total := same_sum explicit power
        simp only [WordScan.scan, signed_toNat negative fits.significand.1]
        by_cases in_range : FitsSigned exponentBound
            (words.exponent + words.pendingZeros + explicit)
        · rw [if_pos in_range] at total
          cases made : ofParts? (if negative then -words.significand else words.significand)
              (words.exponent + words.pendingZeros + explicit) <;>
            simp only [total, word?_of_fits in_range, made]
        · rw [if_neg in_range] at total
          rw [ofParts?_of_large in_range]
          rcases total with refused | total
          · simp only [refused]
          · simp only [total, word?_of_large in_range]

theorem splitSign_length (chars : List Char) : (splitSign chars).2.length ≤ chars.length := by
  unfold splitSign
  split <;> simp

end Decimal

theorem chars_le_bytes (text : String) : text.toList.length ≤ text.utf8ByteSize := by
  have encoded : text.utf8ByteSize = (text.toList.flatMap String.utf8EncodeChar).length := by
    rw [← String.size_toByteArray, ← String.utf8Encode_toList]
    simp [List.utf8Encode]
  rw [encoded]
  induction text.toList with
  | nil => exact Nat.le_refl _
  | cons c rest ih =>
    have some_byte := c.utf8Size_pos
    rw [List.flatMap_cons, List.length_append, String.length_utf8EncodeChar, List.length_cons]
    omega

namespace Decimal

theorem parse_eq_read_of_length {text : String} (short : text.toList.length ≤ greatestCount) :
    parse text = read text := by
  have rest_short := splitSign_length text.toList
  unfold parse read
  by_cases empty : text.toList = []
  · rw [if_pos empty, empty]
    rfl
  · rw [if_neg empty]
    cases split : splitSign text.toList with
    | mk negative rest =>
      rw [split] at rest_short
      simp only at rest_short ⊢
      exact parseUnsigned_eq negative _ (by omega)

/-- No text of fewer bytes than there are counts is read in another way. -/
theorem parse_eq_read {text : String} (short : text.utf8ByteSize ≤ greatestCount) :
    parse text = read text :=
  parse_eq_read_of_length (Nat.le_trans (chars_le_bytes text) short)

theorem parse_text (d : Decimal) : parse d.text = read d.text :=
  parse_eq_read_of_length (Nat.le_trans d.text_length_le (by decide))

/-! ### What a text of any length is read as -/

def WordScan.Trimmed (words : WordScan) : Prop :=
  (0 ≤ words.significand ∧ words.significand < significandBound) ∧
    (words.significand % 10 ≠ 0 ∨ words.significand = 0)

theorem WordScan.nonzeroDigit?_trimmed {words next : WordScan} {digit : Nat}
    (number : 0 < digit ∧ digit < 10) (trimmed : words.Trimmed)
    (made : words.nonzeroDigit? digit = some next) : next.Trimmed := by
  obtain ⟨power, power_word, made⟩ := Option.bind_eq_some_iff.mp made
  obtain ⟨raised, raised_word, made⟩ := Option.bind_eq_some_iff.mp made
  obtain ⟨significand, word, rfl⟩ := Option.map_eq_some_iff.mp made
  obtain ⟨-, rfl⟩ := word?_eq_some.mp power_word
  obtain ⟨-, rfl⟩ := word?_eq_some.mp raised_word
  obtain ⟨fits, rfl⟩ := word?_eq_some.mp word
  -- A count that cannot rise any more is a power of ten as well.
  obtain ⟨zeros, counted⟩ : ∃ zeros, nextCount words.pendingZeros = zeros + 1 := by
    have some_zero : 0 < nextCount words.pendingZeros := by
      unfold nextCount greatestCount
      omega
    exact ⟨_, (Nat.succ_pred_eq_of_pos some_zero).symm⟩
  have product : 0 ≤ words.significand * tenTo zeros :=
    Int.mul_nonneg trimmed.1.1 (Int.natCast_nonneg _)
  unfold Trimmed
  simp only [FitsSigned, counted, tenTo_succ, Int.natCast_mul, ← Int.mul_assoc] at fits ⊢
  omega

theorem gatherDigits_trimmed {words next : WordScan} {position stop : Nat}
    {chars rest : List Char} (read : gatherDigits words position chars = .ok (next, stop, rest))
    (trimmed : words.Trimmed) : next.Trimmed := by
  induction chars generalizing words position with
  | nil =>
    cases read
    exact trimmed
  | cons c others ih =>
    rw [gatherDigits] at read
    by_cases zero : c = '0'
    · rw [if_pos zero] at read
      exact ih read trimmed
    · rw [if_neg zero] at read
      split at read
      · rename_i isDigit
        split at read
        · rename_i after made
          exact ih read
            (WordScan.nonzeroDigit?_trimmed (Scan.digit_number isDigit zero) trimmed made)
        · cases read
      · split at read
        · exact ih read trimmed
        · split at read
          · cases read
            exact trimmed
          · cases read

theorem parseUnsigned_trimmed {negative : Bool} {position : Nat} {chars : List Char} {d : Decimal}
    (read : parseUnsigned negative position chars = .ok d) : d.Trimmed := by
  unfold parseUnsigned at read
  split at read
  · cases read
  · rename_i words stop rest gathered
    split at read
    · cases read
    · split at read
      · cases read
      · split at read
        · cases read
        · split at read
          · rename_i number parts
            cases read
            obtain ⟨fits, last⟩ := gatherDigits_trimmed gathered ⟨by decide, Or.inr rfl⟩
            have ends : (if negative then -words.significand else words.significand) % 10 ≠ 0 ∨
                (if negative then -words.significand else words.significand) = 0 := by
              split <;> omega
            have same := ofParts?_significand ends parts
            rw [← same] at ends
            refine ⟨?_, ends⟩
            rw [same]
            split <;> omega
          · cases read

/-- A number that some text is read as. -/
def Readable (d : Decimal) : Prop := ∃ text, parse text = .ok d

theorem readable_iff_trimmed {d : Decimal} : d.Readable ↔ d.Trimmed := by
  constructor
  · rintro ⟨text, found⟩
    unfold parse at found
    split at found
    · cases found
    · exact parseUnsigned_trimmed found
  · intro trimmed
    exact ⟨d.text, by rw [parse_text, trimmed_reads_back trimmed]⟩

end Decimal
end EntityCatalog
