import EntityCatalog.Proofs.Timestamp.Parts

/- What may stand behind a time, and the offset that it denotes. Two characters of hours and two of
   minutes with a sign in front keep an offset within a day. -/
namespace EntityCatalog
namespace Timestamp

/-- What stands behind a time: nothing, a mark of universal time, or a distance from it. -/
inductive Zone where
  | absent
  | universal (mark : Char)
  | shifted (sign : Char) (hours minutes : List Char)

namespace Zone

def chars : Zone → List Char
  | .absent => []
  | .universal mark => [mark]
  | .shifted sign hours minutes => sign :: (hours ++ ':' :: minutes)

def WellFormed : Zone → Prop
  | .absent => True
  | .universal mark => mark = 'Z' ∨ mark = 'z'
  | .shifted sign hours minutes => (sign = '+' ∨ sign = '-') ∧ Digits 2 hours ∧ Digits 2 minutes

def InRange : Zone → Prop
  | .shifted _ hours minutes => number hours ≤ 23 ∧ number minutes ≤ 59
  | _ => True

def offset : Zone → Int
  | .shifted sign hours minutes =>
      if sign = '-' then -(number hours * 60 + number minutes)
      else number hours * 60 + number minutes
  | _ => 0

end Zone

def factor? (sign : Char) : Option Int :=
  if sign = '+' then some 1 else if sign = '-' then some (-1) else none

theorem factor?_eq_some {sign : Char} {factor : Int} :
    factor? sign = some factor ↔ sign = '+' ∧ factor = 1 ∨ sign = '-' ∧ factor = -1 := by
  unfold factor?
  constructor
  · intro read
    split at read
    · rename_i plus
      cases read
      exact Or.inl ⟨plus, rfl⟩
    · split at read
      · rename_i minus
        cases read
        exact Or.inr ⟨minus, rfl⟩
      · cases read
  · rintro (⟨rfl, rfl⟩ | ⟨rfl, rfl⟩) <;> rfl

theorem readOffset?_six (sign h1 h2 m1 m2 : Char) :
    readOffset? [sign, h1, h2, ':', m1, m2] =
      (factor? sign).bind fun factor => (number? [h1, h2]).bind fun hours =>
        (number? [m1, m2]).bind fun minutes =>
          if 23 < hours ∨ 59 < minutes then none else some (factor * (hours * 60 + minutes)) := by
  simp only [readOffset?]
  unfold factor?
  cases number? [h1, h2] with
  | none =>
    simp only [Option.bind_none]
    rw [Option.bind_fun_none]
  | some hours =>
    cases number? [m1, m2] with
    | none =>
      simp only [Option.bind_some, Option.bind_none]
      rw [Option.bind_fun_none]
    | some minutes =>
      simp only [Option.bind_some]
      by_cases outside : 23 < hours ∨ 59 < minutes
      · simp only [if_pos outside]
        rw [Option.bind_fun_none]
      · simp only [if_neg outside]
        split
        · rw [Option.bind_some, Int.one_mul]
        · split
          · rw [Option.bind_some, Int.neg_one_mul]
          · rfl

theorem readOffset?_of_length {chars : List Char} (other : chars.length ≠ 6)
    (unmarked : ¬ (chars = [] ∨ chars = ['Z'] ∨ chars = ['z'])) : readOffset? chars = none := by
  unfold readOffset?
  split
  · exact absurd (Or.inl rfl) unmarked
  · exact absurd (Or.inr (Or.inl rfl)) unmarked
  · exact absurd (Or.inr (Or.inr rfl)) unmarked
  · exact absurd rfl other
  · rfl

theorem readOffset?_of_colon {sign h1 h2 colon m1 m2 : Char} (other : colon ≠ ':') :
    readOffset? [sign, h1, h2, colon, m1, m2] = none := by
  unfold readOffset?
  split <;> simp_all

theorem readOffset?_of_marked {chars : List Char}
    (marked : chars = [] ∨ chars = ['Z'] ∨ chars = ['z']) : readOffset? chars = some 0 := by
  rcases marked with rfl | rfl | rfl <;> rfl

theorem readOffset?_inv {chars : List Char} {offset : Int}
    (read : readOffset? chars = some offset) :
    (chars = [] ∨ chars = ['Z'] ∨ chars = ['z']) ∧ offset = 0 ∨
      ∃ sign h1 h2 m1 m2 factor hours minutes, chars = [sign, h1, h2, ':', m1, m2] ∧
        factor? sign = some factor ∧ number? [h1, h2] = some hours ∧
        number? [m1, m2] = some minutes ∧ (hours ≤ 23 ∧ minutes ≤ 59) ∧
        offset = factor * (hours * 60 + minutes) := by
  by_cases marked : chars = [] ∨ chars = ['Z'] ∨ chars = ['z']
  · rw [readOffset?_of_marked marked, Option.some.injEq] at read
    exact Or.inl ⟨marked, read.symm⟩
  · by_cases six : chars.length = 6
    · match chars, six with
      | [sign, h1, h2, colon, m1, m2], _ =>
        by_cases separated : colon = ':'
        · subst separated
          rw [readOffset?_six] at read
          simp only [Option.bind_eq_some_iff] at read
          obtain ⟨factor, factor_read, hours, hours_read, minutes, minutes_read, whole⟩ := read
          split at whole
          · cases whole
          · rename_i inside
            cases whole
            exact Or.inr ⟨sign, h1, h2, m1, m2, factor, hours, minutes, rfl, factor_read,
              hours_read, minutes_read, by omega, rfl⟩
        · rw [readOffset?_of_colon separated] at read
          cases read
    · rw [readOffset?_of_length six marked] at read
      cases read

namespace Zone

theorem offset_shifted {sign : Char} {factor : Int} (read : factor? sign = some factor)
    (hours minutes : List Char) :
    (shifted sign hours minutes).offset = factor * (number hours * 60 + number minutes) := by
  rcases factor?_eq_some.mp read with ⟨rfl, rfl⟩ | ⟨rfl, rfl⟩
  · exact (Int.one_mul _).symm
  · exact (Int.neg_one_mul _).symm

theorem readOffset?_chars {zone : Zone} (well_formed : zone.WellFormed) (range : zone.InRange) :
    readOffset? zone.chars = some zone.offset := by
  cases zone with
  | absent => rfl
  | universal mark => rcases well_formed with rfl | rfl <;> rfl
  | shifted sign hours minutes =>
    obtain ⟨marks, hours_digits, minutes_digits⟩ := well_formed
    obtain ⟨h1, h2, hours_form, hours_read⟩ := hours_digits.two
    obtain ⟨m1, m2, minutes_form, minutes_read⟩ := minutes_digits.two
    obtain ⟨factor, factor_read⟩ : ∃ factor, factor? sign = some factor := by
      rcases marks with rfl | rfl
      · exact ⟨1, rfl⟩
      · exact ⟨-1, rfl⟩
    have inside : ¬ (23 < ((number hours : Nat) : Int) ∨ 59 < ((number minutes : Nat) : Int)) := by
      have high := range
      unfold InRange at high
      omega
    have form : (shifted sign hours minutes).chars = [sign, h1, h2, ':', m1, m2] := by
      rw [chars, hours_form, minutes_form]
      rfl
    rw [form, readOffset?_six, factor_read, hours_read, minutes_read, offset_shifted factor_read]
    simp only [Option.bind_some, if_neg inside]

theorem exists_of_readOffset? {chars : List Char} {offset : Int}
    (read : readOffset? chars = some offset) :
    ∃ zone : Zone, zone.WellFormed ∧ zone.InRange ∧ zone.chars = chars ∧ zone.offset = offset := by
  rcases readOffset?_inv read with ⟨rfl | rfl | rfl, rfl⟩ | ⟨sign, h1, h2, m1, m2, factor, hours,
    minutes, rfl, factor_read, hours_read, minutes_read, inside, rfl⟩
  · exact ⟨.absent, trivial, trivial, rfl, rfl⟩
  · exact ⟨.universal 'Z', Or.inl rfl, trivial, rfl, rfl⟩
  · exact ⟨.universal 'z', Or.inr rfl, trivial, rfl, rfl⟩
  · obtain ⟨hours_digits, rfl⟩ := digits_of_number? rfl hours_read
    obtain ⟨minutes_digits, rfl⟩ := digits_of_number? rfl minutes_read
    have marks : sign = '+' ∨ sign = '-' :=
      (factor?_eq_some.mp factor_read).imp And.left And.left
    refine ⟨.shifted sign [h1, h2] [m1, m2], ⟨marks, hours_digits, minutes_digits⟩, ?_, rfl,
      offset_shifted factor_read _ _⟩
    unfold InRange
    omega

theorem head {zone : Zone} (well_formed : zone.WellFormed) {c : Char} {rest : List Char}
    (form : zone.chars = c :: rest) : c.isDigit = false ∧ c ≠ '.' := by
  cases zone with
  | absent => cases form
  | universal mark =>
    cases form
    rcases well_formed with rfl | rfl <;> decide
  | shifted sign hours minutes =>
    cases form
    rcases well_formed.1 with rfl | rfl <;> decide

theorem ascii {zone : Zone} (well_formed : zone.WellFormed) :
    zone.chars.all isAscii = true := by
  cases zone with
  | absent => rfl
  | universal mark => rcases well_formed with rfl | rfl <;> rfl
  | shifted sign hours minutes =>
    obtain ⟨marks, hours_digits, minutes_digits⟩ := well_formed
    simp only [chars, List.all_cons, List.all_append, all_ascii_of_digits hours_digits.2,
      all_ascii_of_digits minutes_digits.2]
    rcases marks with rfl | rfl <;> rfl

theorem offset_range {zone : Zone} (range : zone.InRange) : zone.offset.natAbs < 1440 := by
  cases zone with
  | absent => decide
  | universal mark =>
    change (0 : Int).natAbs < 1440
    decide
  | shifted sign hours minutes =>
    obtain ⟨hours_high, minutes_high⟩ := range
    unfold offset
    simp only
    split <;> omega

end Zone

theorem readOffset?_range {chars : List Char} {offset : Int}
    (read : readOffset? chars = some offset) : offset.natAbs < 1440 := by
  obtain ⟨zone, -, range, -, rfl⟩ := Zone.exists_of_readOffset? read
  exact Zone.offset_range range

end Timestamp
end EntityCatalog
