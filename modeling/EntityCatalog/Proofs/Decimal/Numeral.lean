import EntityCatalog.Proofs.Decimal.Value

/- Numbers as they are written: digits with at most one point among them, a sign in front and a power
   of ten behind. A text can be taken apart in one way only, so it is settled by its characters which
   number it denotes. -/
namespace EntityCatalog

inductive Mark where
  | bare
  | plus
  | minus
  deriving DecidableEq

namespace Mark

def chars : Mark → List Char
  | .bare => []
  | .plus => ['+']
  | .minus => ['-']

def isMinus : Mark → Bool
  | .minus => true
  | _ => false

end Mark

structure PowerPart where
  marker : Char
  mark : Mark
  digits : List Char
  deriving DecidableEq

namespace PowerPart

def chars (power : PowerPart) : List Char := power.marker :: (power.mark.chars ++ power.digits)

def number (power : PowerPart) : Int :=
  Decimal.signed power.mark.isMinus (Nat.ofDigitChars 10 power.digits 0)

structure WellFormed (power : PowerPart) : Prop where
  marker : power.marker = 'e' ∨ power.marker = 'E'
  allDigits : ∀ c ∈ power.digits, c.isDigit = true
  some_digit : power.digits ≠ []

end PowerPart

structure Numeral where
  mark : Mark
  whole : List Char
  fraction? : Option (List Char)
  power? : Option PowerPart
  deriving DecidableEq

def pointChars : Option (List Char) → List Char
  | none => []
  | some fraction => '.' :: fraction

def powerChars : Option PowerPart → List Char
  | none => []
  | some power => power.chars

namespace Numeral

def chars (n : Numeral) : List Char :=
  n.mark.chars ++ (n.whole ++ (pointChars n.fraction? ++ powerChars n.power?))

def text (n : Numeral) : String := String.ofList n.chars

def fraction (n : Numeral) : List Char := n.fraction?.getD []

def digits (n : Numeral) : List Char := n.whole ++ n.fraction

def explicit (n : Numeral) : Int := (n.power?.map PowerPart.number).getD 0

/-- The number that is denoted: all digits count, and each one behind the point divides by ten. -/
def value (n : Numeral) : Rat :=
  scaled (Decimal.signed n.mark.isMinus (Nat.ofDigitChars 10 n.digits 0))
    (n.explicit - (n.fraction.length : Int))

structure WellFormed (n : Numeral) : Prop where
  allDigits : ∀ c ∈ n.digits, c.isDigit = true
  some_digit : n.digits ≠ []
  power : ∀ power, n.power? = some power → power.WellFormed

end Numeral

def Unsigned (chars : List Char) : Prop :=
  ∀ c rest, chars = c :: rest → c ≠ '+' ∧ c ≠ '-'

def Undigited (chars : List Char) : Prop := ∀ c rest, chars = c :: rest → c.isDigit = false

theorem unsigned_of_digit {c : Char} (isDigit : c.isDigit = true) (rest : List Char) :
    Unsigned (c :: rest) := by
  intro first others same
  cases same
  constructor
  · rintro rfl
    exact absurd isDigit (by decide)
  · rintro rfl
    exact absurd isDigit (by decide)

theorem Mark.eq_of_chars {mark other : Mark} {rest others : List Char} (unsigned : Unsigned rest)
    (other_unsigned : Unsigned others) (same : mark.chars ++ rest = other.chars ++ others) :
    mark = other ∧ rest = others := by
  cases mark with
  | bare =>
    cases other with
    | bare => exact ⟨rfl, same⟩
    | plus => exact absurd rfl (unsigned _ _ same).1
    | minus => exact absurd rfl (unsigned _ _ same).2
  | plus =>
    cases other with
    | bare => exact absurd rfl (other_unsigned _ _ same.symm).1
    | plus => exact ⟨rfl, (List.cons.inj same).2⟩
    | minus => exact absurd (List.cons.inj same).1 (by decide)
  | minus =>
    cases other with
    | bare => exact absurd rfl (other_unsigned _ _ same.symm).2
    | plus => exact absurd (List.cons.inj same).1 (by decide)
    | minus => exact ⟨rfl, (List.cons.inj same).2⟩

/-- Where a row of digits ends is settled by the characters. -/
theorem digits_eq_of_append {digits others rest tail : List Char}
    (allDigits : ∀ c ∈ digits, c.isDigit = true) (othersDigits : ∀ c ∈ others, c.isDigit = true)
    (ended : Undigited rest) (tail_ended : Undigited tail) (same : digits ++ rest = others ++ tail) :
    digits = others ∧ rest = tail := by
  induction digits generalizing others with
  | nil =>
    cases others with
    | nil => exact ⟨rfl, same⟩
    | cons c later =>
      have stops := ended c _ same
      rw [othersDigits c (by simp)] at stops
      cases stops
  | cons c later ih =>
    cases others with
    | nil =>
      have stops := tail_ended c _ same.symm
      rw [allDigits c (by simp)] at stops
      cases stops
    | cons d behind =>
      obtain ⟨rfl, tails⟩ := List.cons.inj same
      have laterDigits : ∀ d ∈ later, d.isDigit = true := fun d member => allDigits d (by simp [member])
      have behindDigits : ∀ d ∈ behind, d.isDigit = true := fun d member =>
        othersDigits d (by simp [member])
      obtain ⟨rfl, rests⟩ := ih laterDigits behindDigits tails
      exact ⟨rfl, rests⟩

namespace PowerPart

theorem WellFormed.unsigned {power : PowerPart} (well_formed : power.WellFormed) :
    Unsigned power.digits := by
  obtain ⟨c, rest, same⟩ := List.exists_cons_of_ne_nil well_formed.some_digit
  rw [same]
  exact unsigned_of_digit (well_formed.allDigits c (by simp [same])) rest

theorem eq_of_chars {power other : PowerPart} (well_formed : power.WellFormed)
    (other_well_formed : other.WellFormed) (same : power.chars = other.chars) : power = other := by
  obtain ⟨marker, rests⟩ := List.cons.inj same
  obtain ⟨mark, digits⟩ :=
    Mark.eq_of_chars well_formed.unsigned other_well_formed.unsigned rests
  cases power
  cases other
  simp only at marker mark digits
  rw [marker, mark, digits]

theorem WellFormed.undigited {power : PowerPart} (well_formed : power.WellFormed) :
    Undigited power.chars := by
  intro c rest same
  obtain ⟨rfl, -⟩ := List.cons.inj same
  rcases well_formed.marker with small | capital
  · rw [small]
    decide
  · rw [capital]
    decide

end PowerPart

theorem powerChars_undigited {power? : Option PowerPart}
    (well_formed : ∀ power, power? = some power → power.WellFormed) :
    Undigited (powerChars power?) := by
  cases power? with
  | none =>
    intro c rest same
    cases same
  | some power => exact (well_formed power rfl).undigited

theorem powerChars_inj {power? other? : Option PowerPart}
    (well_formed : ∀ power, power? = some power → power.WellFormed)
    (other_well_formed : ∀ power, other? = some power → power.WellFormed)
    (same : powerChars power? = powerChars other?) : power? = other? := by
  cases power? with
  | none =>
    cases other? with
    | none => rfl
    | some other => cases same
  | some power =>
    cases other? with
    | none => cases same
    | some other =>
      rw [PowerPart.eq_of_chars (well_formed power rfl) (other_well_formed other rfl) same]

theorem powerChars_ne_point {power? : Option PowerPart}
    (well_formed : ∀ power, power? = some power → power.WellFormed) (rest : List Char) :
    powerChars power? ≠ '.' :: rest := by
  intro same
  cases power? with
  | none => cases same
  | some power =>
    have marker := (well_formed power rfl).marker
    rw [(List.cons.inj same).1] at marker
    exact absurd marker (by decide)

theorem pointChars_undigited {fraction? : Option (List Char)} {rest : List Char}
    (ended : Undigited rest) : Undigited (pointChars fraction? ++ rest) := by
  cases fraction? with
  | none => exact ended
  | some fraction =>
    intro c others same
    obtain ⟨rfl, -⟩ := List.cons.inj same
    decide

namespace Numeral

theorem fraction_of_some {n : Numeral} {fraction : List Char}
    (pointed : n.fraction? = some fraction) : n.fraction = fraction := by
  rw [Numeral.fraction, pointed]
  rfl

namespace WellFormed
variable {n : Numeral}

theorem wholeDigits (well_formed : n.WellFormed) : ∀ c ∈ n.whole, c.isDigit = true :=
  fun c member => well_formed.allDigits c (List.mem_append_left _ member)

theorem fractionDigits (well_formed : n.WellFormed) : ∀ c ∈ n.fraction, c.isDigit = true :=
  fun c member => well_formed.allDigits c (List.mem_append_right _ member)

theorem unsigned (well_formed : n.WellFormed) :
    Unsigned (n.whole ++ (pointChars n.fraction? ++ powerChars n.power?)) := by
  cases whole : n.whole with
  | cons c rest => exact unsigned_of_digit (well_formed.wholeDigits c (by simp [whole])) _
  | nil =>
    cases pointed : n.fraction? with
    | none =>
      have empty : n.digits = [] := by simp [digits, fraction, whole, pointed]
      exact absurd empty well_formed.some_digit
    | some fraction =>
      intro c rest same
      obtain ⟨rfl, -⟩ := List.cons.inj same
      decide

end WellFormed

theorem pointChars_inj {n other : Numeral} (well_formed : n.WellFormed)
    (other_well_formed : other.WellFormed)
    (same : pointChars n.fraction? ++ powerChars n.power? =
      pointChars other.fraction? ++ powerChars other.power?) :
    n.fraction? = other.fraction? ∧ n.power? = other.power? := by
  have powers := powerChars_inj well_formed.power other_well_formed.power
  cases pointed : n.fraction? with
  | none =>
    cases other_pointed : other.fraction? with
    | none =>
      rw [pointed, other_pointed] at same
      exact ⟨rfl, powers same⟩
    | some fraction =>
      rw [pointed, other_pointed] at same
      exact absurd same (powerChars_ne_point well_formed.power _)
  | some fraction =>
    cases other_pointed : other.fraction? with
    | none =>
      rw [pointed, other_pointed] at same
      exact absurd same.symm (powerChars_ne_point other_well_formed.power _)
    | some others =>
      have allDigits := well_formed.fractionDigits
      have othersDigits := other_well_formed.fractionDigits
      rw [fraction_of_some pointed] at allDigits
      rw [fraction_of_some other_pointed] at othersDigits
      rw [pointed, other_pointed] at same
      obtain ⟨rfl, rests⟩ := digits_eq_of_append allDigits othersDigits
        (powerChars_undigited well_formed.power) (powerChars_undigited other_well_formed.power)
        (List.cons.inj same).2
      exact ⟨rfl, powers rests⟩

/-- A text is written in one way at most. -/
theorem eq_of_chars {n other : Numeral} (well_formed : n.WellFormed)
    (other_well_formed : other.WellFormed) (same : n.chars = other.chars) : n = other := by
  obtain ⟨mark, bodies⟩ :=
    Mark.eq_of_chars well_formed.unsigned other_well_formed.unsigned same
  obtain ⟨whole, tails⟩ := digits_eq_of_append well_formed.wholeDigits
    other_well_formed.wholeDigits (pointChars_undigited (powerChars_undigited well_formed.power))
    (pointChars_undigited (powerChars_undigited other_well_formed.power)) bodies
  obtain ⟨fraction, power⟩ := pointChars_inj well_formed other_well_formed tails
  cases n
  cases other
  simp only at mark whole fraction power
  rw [mark, whole, fraction, power]

end Numeral
end EntityCatalog
