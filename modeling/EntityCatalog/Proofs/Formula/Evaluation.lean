import EntityCatalog.Formula
import EntityCatalog.Proofs.Decimal.Value

/- What a formula evaluates to. The value is the exact sum of the signed terms, and there is one
   only if each variable has a value and each sum on the way can be formed. Otherwise the first
   term that fails gives the fault. Variables are asked for one by one, and each answer may change
   the state of the resolver. -/
namespace EntityCatalog

namespace Sign

def signed : Sign → Rat → Rat
  | .plus, x => x
  | .minus, x => -x

theorem apply?_value {sign : Sign} {total value next : Decimal}
    (applied : sign.apply? total value = some next) :
    next.value = total.value + sign.signed value.value := by
  cases sign with
  | plus => exact Decimal.add?_value applied
  | minus =>
    rw [Decimal.sub?_value applied, Rat.sub_eq_add_neg]
    rfl

end Sign

def runningSum? (total : Decimal) : List (Sign × Decimal) → Option Decimal
  | [] => some total
  | (sign, value) :: rest => do
      let next ← sign.apply? total value
      runningSum? next rest

def exactSum : List (Sign × Decimal) → Rat
  | [] => 0
  | (sign, value) :: rest => sign.signed value.value + exactSum rest

theorem runningSum?_value {values : List (Sign × Decimal)} {total last : Decimal}
    (summed : runningSum? total values = some last) :
    last.value = total.value + exactSum values := by
  induction values generalizing total with
  | nil =>
    cases summed
    exact (Rat.add_zero _).symm
  | cons first rest ih =>
    obtain ⟨next, applied, onward⟩ := Option.bind_eq_some_iff.mp summed
    rw [ih onward, Sign.apply?_value applied, Rat.add_assoc]
    rfl

theorem run_bind_of_run {σ α β : Type} {action : StateM σ α} {next : α → StateM σ β}
    {start middle : σ} {value : α} (ran : action.run start = (value, middle)) :
    (action >>= next).run start = (next value).run middle := by
  change (next (action.run start).1).run (action.run start).2 = _
  rw [ran]

namespace SignedSum
variable {σ : Type} {resolve : String → StateM σ (Option Decimal)}

inductive Answers (resolve : String → StateM σ (Option Decimal)) : σ → Term → Decimal → σ → Prop
    where
  | number {state : σ} {value : Decimal} : Answers resolve state (.number value) value state
  | named {start finish : σ} {name : String} {value : Decimal}
      (known : (resolve name).run start = (some value, finish)) :
      Answers resolve start (.variable name) value finish

inductive Resolves (resolve : String → StateM σ (Option Decimal)) :
    σ → List (Sign × Term) → List (Sign × Decimal) → σ → Prop where
  | nothing {state : σ} : Resolves resolve state [] [] state
  | term {start middle finish : σ} {sign : Sign} {term : Term} {value : Decimal}
      {terms : List (Sign × Term)} {values : List (Sign × Decimal)}
      (here : Answers resolve start term value middle)
      (others : Resolves resolve middle terms values finish) :
      Resolves resolve start ((sign, term) :: terms) ((sign, value) :: values) finish

/-- The ways for a term to fail: a variable without a value, or a sum that is refused. -/
inductive Fails (resolve : String → StateM σ (Option Decimal)) (start : σ) (total : Decimal)
    (sign : Sign) : Term → Formula.Fault → σ → Prop where
  | unresolved {name : String} {finish : σ} (unknown : (resolve name).run start = (none, finish)) :
      Fails resolve start total sign (.variable name) (.unresolvedVariable name) finish
  | refused {term : Term} {value : Decimal} {finish : σ}
      (here : Answers resolve start term value finish)
      (overflow : sign.apply? total value = none) :
      Fails resolve start total sign term .overflow finish

/-- All terms have values, and all sums on the way can be formed. -/
def Completes (resolve : String → StateM σ (Option Decimal)) (start : σ) (total : Decimal)
    (terms : List (Sign × Term)) (last : Decimal) (finish : σ) : Prop :=
  ∃ values, Resolves resolve start terms values finish ∧ runningSum? total values = some last

/-- The terms before some term complete, and that term fails. -/
def Stops (resolve : String → StateM σ (Option Decimal)) (start : σ) (total : Decimal)
    (terms : List (Sign × Term)) (fault : Formula.Fault) (finish : σ) : Prop :=
  ∃ before sign term after reached middle, terms = before ++ (sign, term) :: after ∧
    Completes resolve start total before reached middle ∧
      Fails resolve middle reached sign term fault finish

theorem answers_or_fails (start : σ) (total : Decimal) (sign : Sign) (term : Term) :
    (∃ value middle next, Answers resolve start term value middle ∧
      sign.apply? total value = some next) ∨
    ∃ fault finish, Fails resolve start total sign term fault finish := by
  have applied {value : Decimal} {middle : σ} (here : Answers resolve start term value middle) :
      (∃ value middle next, Answers resolve start term value middle ∧
        sign.apply? total value = some next) ∨
      ∃ fault finish, Fails resolve start total sign term fault finish := by
    cases sum : sign.apply? total value with
    | none => exact .inr ⟨_, _, .refused here sum⟩
    | some next => exact .inl ⟨value, middle, next, here, sum⟩
  rcases term with value | name
  · exact applied .number
  · rcases asked : (resolve name).run start with ⟨answer, middle⟩
    cases answer with
    | none => exact .inr ⟨_, _, .unresolved asked⟩
    | some value => exact applied (.named asked)

theorem addTerms_of_answers {start middle : σ} {total value next : Decimal} {sign : Sign}
    {term : Term} (here : Answers resolve start term value middle)
    (applied : sign.apply? total value = some next) (rest : List (Sign × Term)) :
    (addTerms resolve total ((sign, term) :: rest)).run start =
      (addTerms resolve next rest).run middle := by
  cases here with
  | number => simp only [addTerms, applied]
  | named known =>
    rw [addTerms, run_bind_of_run known]
    simp only [applied]

theorem addTerms_of_fails {start finish : σ} {total : Decimal} {sign : Sign} {term : Term}
    {fault : Formula.Fault} (fails : Fails resolve start total sign term fault finish)
    (rest : List (Sign × Term)) :
    (addTerms resolve total ((sign, term) :: rest)).run start = (.error fault, finish) := by
  cases fails with
  | unresolved unknown =>
    rw [addTerms, run_bind_of_run unknown]
    rfl
  | refused here overflow =>
    cases here with
    | number =>
      simp only [addTerms, overflow]
      rfl
    | named known =>
      rw [addTerms, run_bind_of_run known]
      simp only [overflow]
      rfl

theorem addTerms_of_resolves {start finish : σ} {terms : List (Sign × Term)}
    {values : List (Sign × Decimal)} (resolves : Resolves resolve start terms values finish)
    {total reached : Decimal} (summed : runningSum? total values = some reached)
    (after : List (Sign × Term)) :
    (addTerms resolve total (terms ++ after)).run start =
      (addTerms resolve reached after).run finish := by
  induction resolves generalizing total with
  | nothing =>
    cases summed
    rfl
  | term here others ih =>
    obtain ⟨next, applied, onward⟩ := Option.bind_eq_some_iff.mp summed
    rw [List.cons_append, addTerms_of_answers here applied]
    exact ih onward

theorem addTerms_of_completes {start finish : σ} {total last : Decimal}
    {terms : List (Sign × Term)} (completes : Completes resolve start total terms last finish) :
    (addTerms resolve total terms).run start = (.ok last, finish) := by
  obtain ⟨values, resolves, summed⟩ := completes
  have all := addTerms_of_resolves resolves summed []
  rwa [List.append_nil] at all

theorem addTerms_of_stops {start finish : σ} {total : Decimal} {terms : List (Sign × Term)}
    {fault : Formula.Fault} (stops : Stops resolve start total terms fault finish) :
    (addTerms resolve total terms).run start = (.error fault, finish) := by
  obtain ⟨before, sign, term, after, reached, middle, rfl, completes, fails⟩ := stops
  obtain ⟨values, resolves, summed⟩ := completes
  rw [addTerms_of_resolves resolves summed, addTerms_of_fails fails]

theorem Completes.after {start middle finish : σ} {total value next last : Decimal} {sign : Sign}
    {term : Term} {rest : List (Sign × Term)} (here : Answers resolve start term value middle)
    (applied : sign.apply? total value = some next)
    (others : Completes resolve middle next rest last finish) :
    Completes resolve start total ((sign, term) :: rest) last finish := by
  obtain ⟨values, resolves, summed⟩ := others
  refine ⟨(sign, value) :: values, .term here resolves, ?_⟩
  rw [runningSum?, applied]
  exact summed

theorem Stops.after {start middle finish : σ} {total value next : Decimal} {sign : Sign}
    {term : Term} {rest : List (Sign × Term)} {fault : Formula.Fault}
    (here : Answers resolve start term value middle)
    (applied : sign.apply? total value = some next)
    (others : Stops resolve middle next rest fault finish) :
    Stops resolve start total ((sign, term) :: rest) fault finish := by
  obtain ⟨before, failing_sign, failing, behind, reached, stop, rfl, completes, fails⟩ := others
  exact ⟨(sign, term) :: before, failing_sign, failing, behind, reached, stop, rfl,
    completes.after here applied, fails⟩

theorem Stops.at_once {start finish : σ} {total : Decimal} {sign : Sign} {term : Term}
    {fault : Formula.Fault} (fails : Fails resolve start total sign term fault finish)
    (rest : List (Sign × Term)) :
    Stops resolve start total ((sign, term) :: rest) fault finish :=
  ⟨[], sign, term, rest, total, start, rfl, ⟨[], .nothing, rfl⟩, fails⟩

theorem completes_or_stops (resolve : String → StateM σ (Option Decimal)) (start : σ)
    (total : Decimal) (terms : List (Sign × Term)) :
    (∃ last finish, Completes resolve start total terms last finish) ∨
      ∃ fault finish, Stops resolve start total terms fault finish := by
  -- By induction on the terms: one that does not fail hands its total and its state on.
  induction terms generalizing start total with
  | nil => exact .inl ⟨total, start, [], .nothing, rfl⟩
  | cons first rest ih =>
    obtain ⟨sign, term⟩ := first
    rcases answers_or_fails start total sign term with
      ⟨value, middle, next, here, applied⟩ | ⟨fault, finish, fails⟩
    · rcases ih middle next with ⟨last, finish, others⟩ | ⟨fault, finish, others⟩
      · exact .inl ⟨last, finish, others.after here applied⟩
      · exact .inr ⟨fault, finish, others.after here applied⟩
    · exact .inr ⟨fault, finish, .at_once fails rest⟩

theorem evaluate_ok_iff {sum : SignedSum} {start finish : σ} {last : Decimal} :
    (sum.evaluate resolve).run start = (.ok last, finish) ↔
      Completes resolve start .zero sum.terms last finish := by
  refine ⟨fun found => ?_, addTerms_of_completes⟩
  rcases completes_or_stops resolve start .zero sum.terms with
    ⟨value, after, completes⟩ | ⟨fault, after, stops⟩
  · cases (addTerms_of_completes completes).symm.trans found
    exact completes
  · cases (addTerms_of_stops stops).symm.trans found

theorem evaluate_error_iff {sum : SignedSum} {start finish : σ} {fault : Formula.Fault} :
    (sum.evaluate resolve).run start = (.error fault, finish) ↔
      Stops resolve start .zero sum.terms fault finish := by
  refine ⟨fun found => ?_, addTerms_of_stops⟩
  rcases completes_or_stops resolve start .zero sum.terms with
    ⟨value, after, completes⟩ | ⟨first, after, stops⟩
  · cases (addTerms_of_completes completes).symm.trans found
  · cases (addTerms_of_stops stops).symm.trans found
    exact stops

end SignedSum

namespace Formula
variable {σ : Type} {formula : Formula} {resolve : String → StateM σ (Option Decimal)}
  {start finish : σ}

theorem evaluate_of_unread {fault : Fault} (unread : formula.parse = .error fault) :
    (formula.evaluate resolve).run start = (none, start) := by
  simp only [evaluate, unread]
  rfl

theorem evaluate_of_read {sum : SignedSum} {result : Except Fault Decimal}
    (read : formula.parse = .ok sum) (found : (sum.evaluate resolve).run start = (result, finish)) :
    (formula.evaluate resolve).run start = (result.toOption, finish) := by
  simp only [evaluate, read]
  rw [run_bind_of_run found]
  cases result <;> rfl

theorem evaluate_eq_some_iff {value : Decimal} :
    (formula.evaluate resolve).run start = (some value, finish) ↔
      ∃ sum, formula.parse = .ok sum ∧
        (sum.evaluate resolve).run start = (.ok value, finish) := by
  constructor
  · intro evaluated
    cases read : formula.parse with
    | error fault => cases (evaluate_of_unread read).symm.trans evaluated
    | ok sum =>
      rcases found : (sum.evaluate resolve).run start with ⟨fault | last, after⟩
      · cases (evaluate_of_read read found).symm.trans evaluated
      · cases (evaluate_of_read read found).symm.trans evaluated
        exact ⟨sum, rfl, found⟩
  · rintro ⟨sum, read, found⟩
    exact evaluate_of_read read found

theorem evaluate_eq_none_iff :
    (formula.evaluate resolve).run start = (none, finish) ↔
      ((∃ fault, formula.parse = .error fault) ∧ finish = start) ∨
      ∃ sum fault, formula.parse = .ok sum ∧
        (sum.evaluate resolve).run start = (.error fault, finish) := by
  constructor
  · intro evaluated
    cases read : formula.parse with
    | error fault =>
      cases (evaluate_of_unread read).symm.trans evaluated
      exact .inl ⟨⟨fault, rfl⟩, rfl⟩
    | ok sum =>
      rcases found : (sum.evaluate resolve).run start with ⟨fault | last, after⟩
      · cases (evaluate_of_read read found).symm.trans evaluated
        exact .inr ⟨sum, fault, rfl, found⟩
      · cases (evaluate_of_read read found).symm.trans evaluated
  · rintro (⟨⟨fault, unread⟩, rfl⟩ | ⟨sum, fault, read, found⟩)
    · exact evaluate_of_unread unread
    · exact evaluate_of_read read found

/-- A formula has a value exactly if it can be read, its variables have values and no sum on the
    way is refused. The value is then the exact sum, and no other decimal is that number. A formula
    without a value cannot be read, or one of its terms is the first to fail and gives the fault. -/
theorem evaluate_exact_or_absent (formula : Formula) (resolve : String → StateM σ (Option Decimal))
    (start : σ) :
    (∀ value finish, (formula.evaluate resolve).run start = (some value, finish) ↔
      ∃ sum values, formula.parse = .ok sum ∧
        SignedSum.Resolves resolve start sum.terms values finish ∧
          runningSum? .zero values = some value) ∧
    (∀ values value, runningSum? .zero values = some value →
      value.value = exactSum values ∧ Decimal.Canonical value.significand value.exponent ∧
        ∀ other : Decimal, other.value = exactSum values → other = value) ∧
    (∀ finish, (formula.evaluate resolve).run start = (none, finish) ↔
      ((∃ fault, formula.parse = .error fault) ∧ finish = start) ∨
      ∃ sum fault, formula.parse = .ok sum ∧
        SignedSum.Stops resolve start .zero sum.terms fault finish) ∧
    ∀ sum : SignedSum, ∀ fault finish, (sum.evaluate resolve).run start = (.error fault, finish) ↔
      SignedSum.Stops resolve start .zero sum.terms fault finish := by
  refine ⟨fun value finish => ?_, fun values value summed => ?_, fun finish => ?_, ?_⟩
  · simp only [evaluate_eq_some_iff, SignedSum.evaluate_ok_iff, SignedSum.Completes,
      exists_and_left]
  · have exact_value : value.value = exactSum values := by
      rw [runningSum?_value summed, Decimal.zero_value, Rat.zero_add]
    exact ⟨exact_value, value.canonical, fun other same =>
      Decimal.eq_of_value_eq (same.trans exact_value.symm)⟩
  · simp only [evaluate_eq_none_iff, SignedSum.evaluate_error_iff]
  · intro sum fault finish
    exact SignedSum.evaluate_error_iff

def notedRate (name : String) : StateM (List String) (Option Decimal) := do
  modify (· ++ [name])
  return if name = "rate" then Decimal.ofParts? 15 (-1) else none

def rateFormula : Formula := ⟨"4 - rate + 0.25 - rate"⟩

theorem rate_formula_evaluated :
    ∃ value values, (rateFormula.evaluate notedRate).run [] = (some value, ["rate", "rate"]) ∧
      runningSum? .zero values = some value ∧ value.value = 5 / 4 ∧ exactSum values = 5 / 4 := by
  obtain ⟨evaluates, exact_sums, -, -⟩ := evaluate_exact_or_absent rateFormula notedRate []
  obtain ⟨value, made⟩ : ∃ value, Decimal.ofParts? 125 (-2) = some value :=
    Decimal.ofParts?_isSome (by decide) (by decide)
  have evaluated : (rateFormula.evaluate notedRate).run [] = (some value, ["rate", "rate"]) := by
    rw [← made]
    exact Prod.ext (by decide +kernel) (by decide +kernel)
  obtain ⟨sum, values, -, -, summed⟩ := (evaluates value _).mp evaluated
  have rational : value.value = 5 / 4 := by
    rw [Decimal.ofParts?_value made]
    decide +kernel
  have exact_sum := (exact_sums values value summed).1
  exact ⟨value, values, evaluated, summed, rational, exact_sum.symm.trans rational⟩

end Formula
end EntityCatalog
