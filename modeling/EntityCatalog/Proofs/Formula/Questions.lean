import EntityCatalog.Proofs.Formula.Evaluation

/- What a resolver is asked. The names are the variables of the formula in their order, up to the
   term at which evaluation stops, and all of them when there is a value. Nothing but the answers
   for these names has a part in the result. -/
namespace EntityCatalog

def Term.names : Term → List String
  | .number _ => []
  | .variable name => [name]

/-- The same resolver, with a list of the names that it was asked for so far. -/
def recorded {σ : Type} (resolve : String → StateM σ (Option Decimal)) (name : String) :
    StateM (List String × σ) (Option Decimal) := fun (asked, state) =>
  let (answer, next) := (resolve name).run state
  (answer, asked ++ [name], next)

theorem recorded_run {σ : Type} {resolve : String → StateM σ (Option Decimal)} {name : String}
    {start finish : σ} {answer : Option Decimal}
    (answered : (resolve name).run start = (answer, finish)) (asked : List String) :
    (recorded resolve name).run (asked, start) = (answer, asked ++ [name], finish) := by
  change (((resolve name).run start).1, asked ++ [name], ((resolve name).run start).2) = _
  rw [answered]

namespace SignedSum
variable {σ : Type} {resolve : String → StateM σ (Option Decimal)}

@[simp] theorem variableNames_cons (sign : Sign) (term : Term) (rest : List (Sign × Term)) :
    (SignedSum.mk ((sign, term) :: rest)).variableNames =
      term.names ++ (SignedSum.mk rest).variableNames := by
  cases term <;> rfl

theorem Answers.recorded {start finish : σ} {term : Term} {value : Decimal}
    (here : Answers resolve start term value finish) (asked : List String) :
    Answers (recorded resolve) (asked, start) term value (asked ++ term.names, finish) := by
  cases here with
  | number =>
    rw [Term.names, List.append_nil]
    exact .number
  | named known => exact .named (recorded_run known asked)

theorem Fails.recorded {start finish : σ} {total : Decimal} {sign : Sign} {term : Term}
    {fault : Formula.Fault} (fails : Fails resolve start total sign term fault finish)
    (asked : List String) :
    Fails (recorded resolve) (asked, start) total sign term fault (asked ++ term.names, finish) := by
  cases fails with
  | unresolved unknown => exact .unresolved (recorded_run unknown asked)
  | refused here overflow => exact .refused (here.recorded asked) overflow

theorem addTerms_recorded (resolve : String → StateM σ (Option Decimal)) (start : σ)
    (total : Decimal) (terms : List (Sign × Term)) (before : List String) :
    ∃ result asked finish, (addTerms resolve total terms).run start = (result, finish) ∧
      (addTerms (recorded resolve) total terms).run (before, start) =
        (result, before ++ asked, finish) ∧
      asked <+: (SignedSum.mk terms).variableNames ∧
      ∀ value, result = .ok value → asked = (SignedSum.mk terms).variableNames := by
  -- The list of names changes nothing but itself. By induction on the terms; a term that fails is
  -- the last one whose name is asked for.
  induction terms generalizing start total before with
  | nil => exact ⟨.ok total, [], start, rfl, by rw [List.append_nil]; rfl, List.prefix_rfl,
      fun _ _ => rfl⟩
  | cons first rest ih =>
    obtain ⟨sign, term⟩ := first
    rw [variableNames_cons]
    rcases @answers_or_fails σ resolve start total sign term with
      ⟨value, middle, next, here, applied⟩ | ⟨fault, finish, fails⟩
    · obtain ⟨result, asked, finish, ran, noted, among, whole⟩ :=
        ih middle next (before ++ term.names)
      refine ⟨result, term.names ++ asked, finish, ?_, ?_, ?_, ?_⟩
      · rw [addTerms_of_answers here applied, ran]
      · rw [addTerms_of_answers (here.recorded before) applied, noted, List.append_assoc]
      · exact (List.prefix_append_right_inj _).mpr among
      · intro value found
        rw [whole value found]
    · refine ⟨.error fault, term.names, finish, addTerms_of_fails fails rest,
        addTerms_of_fails (fails.recorded before) rest, List.prefix_append _ _, ?_⟩
      intro value found
      cases found

theorem addTerms_congr {m : Type → Type} [Monad m] {resolve other : String → m (Option Decimal)}
    {terms : List (Sign × Term)} (total : Decimal)
    (agree : ∀ name ∈ (SignedSum.mk terms).variableNames, resolve name = other name) :
    addTerms resolve total terms = addTerms other total terms := by
  -- By induction on the terms, in any monad: each resolver is applied to variables only.
  induction terms generalizing total with
  | nil => rfl
  | cons first rest ih =>
    obtain ⟨sign, term⟩ := first
    rw [variableNames_cons, List.forall_mem_append] at agree
    obtain ⟨here, later⟩ := agree
    rcases term with value | name
    · cases applied : sign.apply? total value with
      | none => simp only [addTerms, applied]
      | some next => simp only [addTerms, applied, ih next later]
    · have same : resolve name = other name := here name (by simp [Term.names])
      simp only [addTerms, same, fun next => ih next later]

end SignedSum

namespace Formula
variable {formula : Formula}

theorem variableNames_of_read {sum : SignedSum} (read : formula.parse = .ok sum) :
    formula.variableNames = sum.variableNames := by
  simp only [variableNames, read]

theorem variableNames_of_unread {fault : Fault} (unread : formula.parse = .error fault) :
    formula.variableNames = [] := by
  simp only [variableNames, unread]

theorem evaluate_recorded {σ : Type} (resolve : String → StateM σ (Option Decimal)) (start : σ) :
    ∃ result asked finish, (formula.evaluate resolve).run start = (result, finish) ∧
      (formula.evaluate (recorded resolve)).run ([], start) = (result, asked, finish) ∧
      asked <+: formula.variableNames ∧
      (result.isSome = true → asked = formula.variableNames) := by
  cases read : formula.parse with
  | error fault =>
    refine ⟨none, [], start, evaluate_of_unread read, evaluate_of_unread read, List.nil_prefix, ?_⟩
    intro found
    cases found
  | ok sum =>
    obtain ⟨result, asked, finish, ran, noted, among, whole⟩ :=
      SignedSum.addTerms_recorded resolve start .zero sum.terms []
    rw [variableNames_of_read read]
    refine ⟨result.toOption, asked, finish, evaluate_of_read read ran, evaluate_of_read read noted,
      among, ?_⟩
    intro found
    cases result with
    | error fault => cases found
    | ok value => exact whole value rfl

theorem evaluate_congr {m : Type → Type} [Monad m] {resolve other : String → m (Option Decimal)}
    (agree : ∀ name ∈ formula.variableNames, resolve name = other name) :
    formula.evaluate resolve = formula.evaluate other := by
  cases read : formula.parse with
  | error fault => simp only [evaluate, read]
  | ok sum =>
    rw [variableNames_of_read read] at agree
    have same : sum.evaluate resolve = sum.evaluate other :=
      SignedSum.addTerms_congr .zero agree
    simp only [evaluate, read, same]

/-- The names that a resolver is asked for are the first of the variables in their order, and all
    of them when there is a value. Resolvers that agree on the variables give the same evaluation,
    whatever their effects. A formula that cannot be read has no variables, and its evaluation is
    over at once. -/
theorem resolver_sees_variables (formula : Formula) :
    (∀ (σ : Type) (resolve : String → StateM σ (Option Decimal)) (start : σ),
      ∃ result asked finish, (formula.evaluate resolve).run start = (result, finish) ∧
        (formula.evaluate (recorded resolve)).run ([], start) = (result, asked, finish) ∧
        asked <+: formula.variableNames ∧
        (result.isSome = true → asked = formula.variableNames)) ∧
    (∀ (m : Type → Type) [Monad m] (resolve other : String → m (Option Decimal)),
      (∀ name ∈ formula.variableNames, resolve name = other name) →
        formula.evaluate resolve = formula.evaluate other) ∧
    ∀ fault, formula.parse = .error fault → formula.variableNames = [] ∧
      ∀ (m : Type → Type) [Monad m] (resolve : String → m (Option Decimal)),
        formula.evaluate resolve = pure none := by
  refine ⟨fun σ resolve start => evaluate_recorded resolve start,
    fun m _ resolve other agree => evaluate_congr agree, fun fault unread => ?_⟩
  refine ⟨variableNames_of_unread unread, fun m _ resolve => ?_⟩
  simp only [evaluate, unread]

def fixedRate (others : Option Decimal) (name : String) : Id (Option Decimal) :=
  if name = "rate" then Decimal.ofParts? 15 (-1) else others

def strayFormula : Formula := ⟨"rate + 2 * load"⟩

theorem rate_formula_asks_twice :
    rateFormula.variableNames = ["rate", "rate"] ∧
      (∃ value finish, (rateFormula.evaluate (recorded notedRate)).run ([], []) =
        (some value, ["rate", "rate"], finish)) ∧
      rateFormula.evaluate (fixedRate none) = rateFormula.evaluate (fixedRate (some .zero)) ∧
      (∃ fault, strayFormula.parse = .error fault) ∧ strayFormula.variableNames = [] ∧
      strayFormula.evaluate (fixedRate (some .zero)) = pure none := by
  have names : rateFormula.variableNames = ["rate", "rate"] := by decide +kernel
  obtain ⟨questions, answers, -⟩ := resolver_sees_variables rateFormula
  obtain ⟨-, -, unread⟩ := resolver_sees_variables strayFormula
  obtain ⟨result, asked, finish, ran, noted, -, whole⟩ := questions _ notedRate []
  have valued : result.isSome = true := by
    have evaluated : ((rateFormula.evaluate notedRate).run []).1.isSome = true := by decide +kernel
    rwa [ran] at evaluated
  obtain ⟨value, rfl⟩ := Option.isSome_iff_exists.mp valued
  rw [whole valued, names] at noted
  have agree : ∀ name ∈ rateFormula.variableNames,
      fixedRate none name = fixedRate (some .zero) name := by
    rw [names]
    simp [fixedRate]
  obtain ⟨fault, stray⟩ : ∃ fault, strayFormula.parse = .error fault := by
    have refused : strayFormula.parse.toOption = none := by decide +kernel
    cases read : strayFormula.parse with
    | error fault => exact ⟨fault, rfl⟩
    | ok sum =>
      rw [read] at refused
      cases refused
  obtain ⟨nameless, unasked⟩ := unread fault stray
  exact ⟨names, ⟨value, finish, noted⟩, answers Id _ _ agree, ⟨fault, stray⟩, nameless,
    unasked Id _⟩

end Formula
end EntityCatalog
