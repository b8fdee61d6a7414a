import EntityCatalog.Decimal.Text

/- Reading literals as if words had no bounds, so that what is read can be told by arithmetic. A scan
   stands for the number that its digits denote, with the trailing zeros counted apart; so the
   significand is never longer than it has to be, and it is determined by the number alone. -/
namespace EntityCatalog

theorem tenTo_pos (places : Nat) : 0 < tenTo places := Nat.pow_pos (by decide)

theorem tenTo_add (first second : Nat) : tenTo (first + second) = tenTo first * tenTo second :=
  Nat.pow_add 10 first second

theorem ofDigitChars_zeros (count start : Nat) :
    Nat.ofDigitChars 10 (List.replicate count '0') start = tenTo count * start :=
  Nat.ofDigitChars_replicate_zero

theorem number_cons (c : Char) (rest : List Char) :
    Nat.ofDigitChars 10 (c :: rest) 0 =
      tenTo rest.length * (c.toNat - '0'.toNat) + Nat.ofDigitChars 10 rest 0 := by
  rw [Nat.ofDigitChars_cons, Nat.ofDigitChars_eq_ofDigitChars_zero, Nat.mul_zero, Nat.zero_add]
  rfl

theorem number_lt {digits : List Char} (allDigits : ∀ c ∈ digits, c.isDigit = true) :
    Nat.ofDigitChars 10 digits 0 < tenTo digits.length := by
  induction digits with
  | nil => decide
  | cons c rest ih =>
    have later := ih fun other member => allDigits other (by simp [member])
    obtain ⟨-, high⟩ := Char.isDigit_iff_toNat.mp (allDigits c (by simp))
    have top : '9'.toNat = '0'.toNat + 9 := rfl
    have first : tenTo rest.length * (c.toNat - '0'.toNat) ≤ tenTo rest.length * 9 :=
      Nat.mul_le_mul_left _ (by omega)
    rw [number_cons, List.length_cons, tenTo_succ]
    omega

/-! ### Reading in unbounded numbers -/

/-- What has been read of a literal: the significand up to its last nonzero digit, the zeros after
    that digit, and the exponent that the digits after the point call for. -/
structure Decimal.Scan where
  significand : Nat
  exponent : Int
  pendingZeros : Nat
  digitSeen : Bool
  pointSeen : Bool

namespace Decimal

def Scan.start : Scan := ⟨0, 0, 0, false, false⟩

def Scan.shifted (scan : Scan) : Int :=
  if scan.pointSeen then scan.exponent - 1 else scan.exponent

def Scan.zeroDigit (scan : Scan) : Scan :=
  { scan with
    pendingZeros := if scan.significand = 0 then 0 else scan.pendingZeros + 1
    exponent := scan.shifted
    digitSeen := true }

def Scan.nonzeroDigit? (scan : Scan) (digit : Nat) : Option Scan :=
  let significand := scan.significand * tenTo (scan.pendingZeros + 1) + digit
  if significand < significandBound then
    some { scan with
      significand := significand
      pendingZeros := 0
      exponent := scan.shifted
      digitSeen := true }
  else none

/-- Reads digits and one point, up to the end or to an exponent marker after a digit. Every
    character read is one byte long, so counting characters counts bytes. -/
def scanDigits (scan : Scan) (position : Nat) :
    List Char → Except Fault (Scan × Nat × List Char)
  | [] => .ok (scan, position, [])
  | c :: rest =>
      if c = '0' then scanDigits scan.zeroDigit (position + 1) rest
      else if c.isDigit then
        match scan.nonzeroDigit? (c.toNat - '0'.toNat) with
        | some next => scanDigits next (position + 1) rest
        | none => .error .overflow
      else if c = '.' ∧ scan.pointSeen = false then
        scanDigits { scan with pointSeen := true } (position + 1) rest
      else if (c = 'e' ∨ c = 'E') ∧ scan.digitSeen then .ok (scan, position, c :: rest)
      else .error (.invalidCharacter position c)

def readExponent (position : Nat) : List Char → Except Fault Int
  | [] => .ok 0
  | marker :: rest =>
      let (negative, digits) := splitSign rest
      if digits ≠ [] ∧ digits.all Char.isDigit then
        .ok (signed negative (Nat.ofDigitChars 10 digits 0))
      else .error (.invalidCharacter position marker)

def readUnsigned (negative : Bool) (position : Nat) (chars : List Char) :
    Except Fault Decimal :=
  match scanDigits .start position chars with
  | .error fault => .error fault
  | .ok (scan, stop, rest) =>
      if scan.digitSeen = false then .error .empty
      else
        match readExponent stop rest with
        | .error fault => .error fault
        | .ok explicit =>
            match ofParts? (signed negative scan.significand)
                (scan.exponent + scan.pendingZeros + explicit) with
            | some d => .ok d
            | none => .error .overflow

def read (text : String) : Except Fault Decimal :=
  let (negative, rest) := splitSign text.toList
  readUnsigned negative (text.toList.length - rest.length) rest

/-! ### The significand of a scan -/

def Minimal (significand zeros : Nat) : Prop :=
  significand % 10 ≠ 0 ∨ significand = 0 ∧ zeros = 0

theorem zeros_le_of_last_digit {m n zeros others : Nat} (last : m % 10 ≠ 0)
    (same : m * tenTo zeros = n * tenTo others) : others ≤ zeros := by
  refine Nat.le_of_not_lt fun fewer => last ?_
  obtain ⟨more, rfl⟩ : ∃ more, others = zeros + (more + 1) := ⟨others - zeros - 1, by omega⟩
  have quotient : m = n * tenTo more * 10 := by
    apply Nat.eq_of_mul_eq_mul_right (tenTo_pos zeros)
    rw [same, tenTo_add, tenTo_succ]
    ac_rfl
  omega

theorem eq_zero_of_scaled {m zeros : Nat} (empty : m * tenTo zeros = 0) : m = 0 :=
  (Nat.mul_eq_zero.mp empty).resolve_right (Nat.ne_of_gt (tenTo_pos zeros))

theorem minimal_unique {m n zeros others : Nat} (minimal : Minimal m zeros)
    (other_minimal : Minimal n others) (same : m * tenTo zeros = n * tenTo others) :
    m = n ∧ zeros = others := by
  rcases minimal with last | ⟨rfl, rfl⟩
  · rcases other_minimal with other_last | ⟨rfl, rfl⟩
    · have equal := Nat.le_antisymm (zeros_le_of_last_digit other_last same.symm)
        (zeros_le_of_last_digit last same)
      subst equal
      exact ⟨Nat.eq_of_mul_eq_mul_right (tenTo_pos zeros) same, rfl⟩
    · have empty := eq_zero_of_scaled (same.trans (Nat.zero_mul _))
      omega
  · rcases other_minimal with other_last | ⟨rfl, rfl⟩
    · have empty := eq_zero_of_scaled (same.symm.trans (Nat.zero_mul _))
      omega
    · exact ⟨rfl, rfl⟩

namespace Scan

def value (scan : Scan) : Nat := scan.significand * tenTo scan.pendingZeros

def Tight (scan : Scan) : Prop := Minimal scan.significand scan.pendingZeros

theorem start_tight : start.Tight := Or.inr ⟨rfl, rfl⟩

def digit (scan : Scan) (c : Char) : Scan :=
  if c = '0' then scan.zeroDigit
  else
    { scan with
      significand := scan.significand * tenTo (scan.pendingZeros + 1) + (c.toNat - '0'.toNat)
      pendingZeros := 0
      exponent := scan.shifted
      digitSeen := true }

def digits (scan : Scan) (chars : List Char) : Scan := chars.foldl digit scan

def withPoint (scan : Scan) : Scan := { scan with pointSeen := true }

@[simp] theorem digit_exponent (scan : Scan) (c : Char) :
    (scan.digit c).exponent = scan.shifted := by
  unfold digit
  split <;> rfl

@[simp] theorem digit_pointSeen (scan : Scan) (c : Char) :
    (scan.digit c).pointSeen = scan.pointSeen := by
  unfold digit
  split <;> rfl

@[simp] theorem digit_digitSeen (scan : Scan) (c : Char) : (scan.digit c).digitSeen = true := by
  unfold digit
  split <;> rfl

@[simp] theorem digits_nil (scan : Scan) : scan.digits [] = scan := rfl

@[simp] theorem digits_cons (scan : Scan) (c : Char) (rest : List Char) :
    scan.digits (c :: rest) = (scan.digit c).digits rest := rfl

theorem digit_value (scan : Scan) (c : Char) :
    (scan.digit c).value = 10 * scan.value + (c.toNat - '0'.toNat) := by
  unfold digit value
  split
  · rename_i zero
    subst zero
    unfold zeroDigit
    by_cases empty : scan.significand = 0
    · simp [empty]
    · simp only [if_neg empty, Nat.sub_self, Nat.add_zero, tenTo_succ]
      ac_rfl
  · simp only [tenTo_zero, Nat.mul_one, tenTo_succ]
    congr 1
    ac_rfl

theorem digits_value (scan : Scan) (chars : List Char) :
    (scan.digits chars).value = Nat.ofDigitChars 10 chars scan.value := by
  induction chars generalizing scan with
  | nil => simp
  | cons c rest ih => rw [digits_cons, ih, digit_value, Nat.ofDigitChars_cons]

theorem digit_number {c : Char} (isDigit : c.isDigit = true) (nonzero : c ≠ '0') :
    0 < c.toNat - '0'.toNat ∧ c.toNat - '0'.toNat < 10 := by
  obtain ⟨low, high⟩ := Char.isDigit_iff_toNat.mp isDigit
  have apart : c.toNat ≠ '0'.toNat := fun same => nonzero (Char.toNat_inj.mp same)
  have top : '9'.toNat = '0'.toNat + 9 := rfl
  omega

theorem digit_tight {scan : Scan} {c : Char} (isDigit : c.isDigit = true) (tight : scan.Tight) :
    (scan.digit c).Tight := by
  unfold digit
  split
  · unfold zeroDigit Tight
    by_cases empty : scan.significand = 0
    · exact Or.inr ⟨empty, if_pos empty⟩
    · exact Or.inl (tight.resolve_right fun both => empty both.1)
  · rename_i nonzero
    have number := digit_number isDigit nonzero
    apply Or.inl
    simp only [tenTo_succ, ← Nat.mul_assoc]
    omega

theorem digits_tight {scan : Scan} {chars : List Char}
    (allDigits : ∀ c ∈ chars, c.isDigit = true) (tight : scan.Tight) :
    (scan.digits chars).Tight := by
  induction chars generalizing scan with
  | nil => exact tight
  | cons c rest ih =>
    exact ih (fun later member => allDigits later (by simp [member]))
      (digit_tight (allDigits c (by simp)) tight)

theorem digit_significand_le (scan : Scan) (c : Char) :
    scan.significand ≤ (scan.digit c).significand := by
  unfold digit
  split
  · exact Nat.le_refl _
  · have grown := Nat.le_mul_of_pos_right scan.significand (tenTo_pos (scan.pendingZeros + 1))
    exact Nat.le_trans grown (Nat.le_add_right _ _)

theorem digits_significand_le (scan : Scan) (chars : List Char) :
    scan.significand ≤ (scan.digits chars).significand := by
  induction chars generalizing scan with
  | nil => exact Nat.le_refl _
  | cons c rest ih => exact Nat.le_trans (digit_significand_le scan c) (ih (scan.digit c))

theorem digits_pointSeen (scan : Scan) (chars : List Char) :
    (scan.digits chars).pointSeen = scan.pointSeen := by
  induction chars generalizing scan with
  | nil => rfl
  | cons c rest ih => rw [digits_cons, ih, digit_pointSeen]

theorem digits_exponent (scan : Scan) (chars : List Char) :
    (scan.digits chars).exponent =
      scan.exponent - if scan.pointSeen then (chars.length : Int) else 0 := by
  induction chars generalizing scan with
  | nil => simp
  | cons c rest ih =>
    rw [digits_cons, ih, digit_exponent, digit_pointSeen, shifted, List.length_cons]
    split <;> omega

theorem start_digits_exponent (chars : List Char) : (start.digits chars).exponent = 0 := by
  rw [digits_exponent]
  rfl

theorem digits_digitSeen {scan : Scan} {chars : List Char}
    (some_digit : chars ≠ [] ∨ scan.digitSeen = true) : (scan.digits chars).digitSeen = true := by
  induction chars generalizing scan with
  | nil => simpa using some_digit
  | cons c rest ih => exact ih (Or.inr (digit_digitSeen scan c))

end Scan

theorem scanDigits_cons (scan : Scan) (position : Nat) (c : Char) (rest : List Char) :
    scanDigits scan position (c :: rest) =
      if c = '0' then scanDigits scan.zeroDigit (position + 1) rest
      else if c.isDigit then
        match scan.nonzeroDigit? (c.toNat - '0'.toNat) with
        | some next => scanDigits next (position + 1) rest
        | none => .error .overflow
      else if c = '.' ∧ scan.pointSeen = false then
        scanDigits scan.withPoint (position + 1) rest
      else if (c = 'e' ∨ c = 'E') ∧ scan.digitSeen then .ok (scan, position, c :: rest)
      else .error (.invalidCharacter position c) := by
  rfl

theorem nonzeroDigit?_eq_some {scan next : Scan} {c : Char} (nonzero : c ≠ '0') :
    scan.nonzeroDigit? (c.toNat - '0'.toNat) = some next ↔
      next = scan.digit c ∧ (scan.digit c).significand < significandBound := by
  unfold Scan.nonzeroDigit? Scan.digit
  simp only [if_neg nonzero]
  split
  · rename_i fits
    simp only [Option.some.injEq, fits, and_true]
    exact eq_comm
  · rename_i large
    constructor
    · intro found
      cases found
    · rintro ⟨-, small⟩
      exact absurd small large

theorem scanDigits_digits {scan : Scan} {chars : List Char} (position : Nat) (rest : List Char)
    (allDigits : ∀ c ∈ chars, c.isDigit = true)
    (fits : (scan.digits chars).significand < significandBound) :
    scanDigits scan position (chars ++ rest) =
      scanDigits (scan.digits chars) (position + chars.length) rest := by
  induction chars generalizing scan position with
  | nil => rfl
  | cons c others ih =>
    have onward := ih (position + 1) (fun later member => allDigits later (by simp [member])) fits
    have first := Nat.lt_of_le_of_lt (Scan.digits_significand_le (scan.digit c) others) fits
    rw [List.cons_append, scanDigits_cons, List.length_cons, Nat.add_comm others.length,
      ← Nat.add_assoc]
    refine Eq.trans ?_ onward
    by_cases zero : c = '0'
    · rw [if_pos zero, Scan.digit, if_pos zero]
    · have next := (nonzeroDigit?_eq_some zero).mpr ⟨rfl, first⟩
      rw [if_neg zero, if_pos (allDigits c (by simp)), next]

theorem nonzeroDigit?_eq_none {scan : Scan} {c : Char} (nonzero : c ≠ '0')
    (large : significandBound ≤ (scan.digit c).significand) :
    scan.nonzeroDigit? (c.toNat - '0'.toNat) = none := by
  apply Option.eq_none_iff_forall_ne_some.mpr
  intro next found
  have fits := ((nonzeroDigit?_eq_some nonzero).mp found).2
  omega

theorem scanDigits_overflow {scan : Scan} {chars : List Char} (position : Nat) (rest : List Char)
    (allDigits : ∀ c ∈ chars, c.isDigit = true) (fits : scan.significand < significandBound)
    (large : significandBound ≤ (scan.digits chars).significand) :
    scanDigits scan position (chars ++ rest) = .error .overflow := by
  induction chars generalizing scan position with
  | nil => exact absurd fits (Nat.not_lt.mpr large)
  | cons c others ih =>
    have isDigit := allDigits c (by simp)
    have laterDigits : ∀ later ∈ others, later.isDigit = true := by
      intro later member
      exact allDigits later (by simp [member])
    rw [List.cons_append, scanDigits_cons]
    by_cases zero : c = '0'
    · have same : scan.digit c = scan.zeroDigit := by rw [Scan.digit, if_pos zero]
      rw [if_pos zero, ← same]
      apply ih (position + 1) laterDigits
      · rw [same]
        exact fits
      · exact large
    · rw [if_neg zero, if_pos isDigit]
      by_cases small : (scan.digit c).significand < significandBound
      · have next := (nonzeroDigit?_eq_some zero).mpr ⟨rfl, small⟩
        simp only [next]
        exact ih (position + 1) laterDigits small large
      · simp only [nonzeroDigit?_eq_none zero (Nat.le_of_not_lt small)]

theorem scanDigits_point {scan : Scan} (first : scan.pointSeen = false) (position : Nat)
    (rest : List Char) :
    scanDigits scan position ('.' :: rest) = scanDigits scan.withPoint (position + 1) rest := by
  rw [scanDigits_cons, if_neg (by decide), if_neg (by decide), if_pos ⟨rfl, first⟩]

theorem scanDigits_marker {scan : Scan} (seen : scan.digitSeen = true) (position : Nat)
    (rest : List Char) :
    scanDigits scan position ('E' :: rest) = .ok (scan, position, 'E' :: rest) := by
  rw [scanDigits_cons, if_neg (by decide), if_neg (by decide), if_neg (fun both => by simp at both),
    if_pos ⟨Or.inr rfl, seen⟩]

end Decimal
end EntityCatalog
