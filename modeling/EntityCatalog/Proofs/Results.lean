/- Results that are a value or a fault, and lists of them. -/
namespace EntityCatalog
variable {α β γ ε ε' : Type}

@[simp] theorem ok_bind (value : α) (next : α → Except ε β) :
    (Except.ok value >>= next) = next value := rfl

@[simp] theorem error_bind (fault : ε) (next : α → Except ε β) :
    (Except.error fault >>= next) = .error fault := rfl

@[simp] theorem ok_map (f : α → β) (value : α) :
    (Except.ok value : Except ε α).map f = .ok (f value) := rfl

@[simp] theorem error_map (f : α → β) (fault : ε) :
    (Except.error fault : Except ε α).map f = .error fault := rfl

@[simp] theorem mapError_ok (f : ε → ε') (value : α) :
    (Except.ok value : Except ε α).mapError f = .ok value := rfl

@[simp] theorem mapError_error (f : ε → ε') (fault : ε) :
    (Except.error fault : Except ε α).mapError f = .error (f fault) := rfl

theorem mapError_eq_ok {f : ε → ε'} {result : Except ε α} {value : α} :
    result.mapError f = .ok value ↔ result = .ok value := by
  constructor
  · intro mapped
    cases result <;> cases mapped
    rfl
  · intro same
    rw [same]
    rfl

theorem bind_eq_ok {result : Except ε α} {next : α → Except ε β} {value : β} :
    (result >>= next) = .ok value ↔ ∃ found, result = .ok found ∧ next found = .ok value := by
  cases result <;> simp

theorem bind_eq_error {result : Except ε α} {next : α → Except ε β} {fault : ε} :
    (result >>= next) = .error fault ↔
      result = .error fault ∨ ∃ found, result = .ok found ∧ next found = .error fault := by
  cases result <;> simp

theorem map_eq_ok {f : α → β} {result : Except ε α} {value : β} :
    result.map f = .ok value ↔ ∃ found, result = .ok found ∧ f found = value := by
  cases result <;> simp

theorem map_eq_error {f : α → β} {result : Except ε α} {fault : ε} :
    result.map f = .error fault ↔ result = .error fault := by
  cases result <;> simp

theorem map_bind_eq {result : Except ε α} {next : α → Except ε β} {f : β → γ} :
    (result >>= next).map f = result >>= fun found => (next found).map f := by
  cases result <;> rfl

theorem mapM_eq_filterMap {f : α → Except ε β} {view : α → Option β}
    {items : List α} (each : ∀ item ∈ items, ∃ value, f item = .ok value ∧ view item = some value) :
    items.mapM f = .ok (items.filterMap view) := by
  induction items with
  | nil => rfl
  | cons item rest ih =>
    have others := ih fun later member => each later (by simp [member])
    obtain ⟨value, made, seen⟩ := each item (by simp)
    rw [List.mapM_cons, made, others, List.filterMap_cons, seen]
    rfl

theorem mem_of_mapM {f : α → Except ε β} {items : List α} {made : List β}
    (all : items.mapM f = .ok made) {value : β} (member : value ∈ made) :
    ∃ item ∈ items, f item = .ok value := by
  induction items generalizing made with
  | nil =>
    cases all
    cases member
  | cons item rest ih =>
    rw [List.mapM_cons] at all
    obtain ⟨first, first_made, others⟩ := bind_eq_ok.mp all
    obtain ⟨later, later_made, joined⟩ := bind_eq_ok.mp others
    cases joined
    rcases List.mem_cons.mp member with same | at_later
    · rw [same]
      exact ⟨item, by simp, first_made⟩
    · obtain ⟨source, at_rest, source_made⟩ := ih later_made at_later
      exact ⟨source, List.mem_cons_of_mem item at_rest, source_made⟩

theorem made_of_mapM {f : α → Except ε β} {items : List α} {made : List β}
    (all : items.mapM f = .ok made) {item : α} (member : item ∈ items) :
    ∃ value, f item = .ok value := by
  induction items generalizing made with
  | nil => cases member
  | cons first rest ih =>
    rw [List.mapM_cons] at all
    obtain ⟨value, first_made, others⟩ := bind_eq_ok.mp all
    obtain ⟨later, later_made, -⟩ := bind_eq_ok.mp others
    rcases List.mem_cons.mp member with same | at_rest
    · rw [same]
      exact ⟨value, first_made⟩
    · exact ih later_made at_rest

/-- The items before the first fault are good, and what comes after it is not looked at. -/
theorem mapM_eq_error {f : α → Except ε β} {items : List α} {fault : ε} :
    items.mapM f = .error fault ↔ ∃ before item after, items = before ++ item :: after ∧
      (∀ earlier ∈ before, ∃ value, f earlier = .ok value) ∧ f item = .error fault := by
  induction items with
  | nil =>
    rw [List.mapM_nil]
    constructor
    · intro failed
      cases failed
    · rintro ⟨before, item, after, split, -, -⟩
      cases before <;> cases split
  | cons first rest ih =>
    rw [List.mapM_cons, bind_eq_error]
    constructor
    · rintro (failed | ⟨value, first_made, later⟩)
      · exact ⟨[], first, rest, rfl, by simp, failed⟩
      · rcases bind_eq_error.mp later with others | ⟨made, -, joined⟩
        · obtain ⟨before, item, after, split, good, failed⟩ := ih.mp others
          refine ⟨first :: before, item, after, by rw [split, List.cons_append], ?_, failed⟩
          exact List.forall_mem_cons.mpr ⟨⟨value, first_made⟩, good⟩
        · cases joined
    · rintro ⟨before, item, after, split, good, failed⟩
      cases before with
      | nil =>
        cases split
        exact Or.inl failed
      | cons earlier before =>
        obtain ⟨same, others⟩ := List.cons.inj split
        obtain ⟨⟨value, made⟩, good⟩ := List.forall_mem_cons.mp good
        rw [same]
        exact Or.inr ⟨value, made, bind_eq_error.mpr (Or.inl
          (ih.mpr ⟨before, item, after, others, good, failed⟩))⟩

end EntityCatalog
