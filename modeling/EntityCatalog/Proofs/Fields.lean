import EntityCatalog.Document

/- Fields of a document as a finite map in insertion order. Setting a new name appends it and
   setting a known name changes nothing but its value, so names stay distinct through all levels,
   and a document whose names are distinct is rebuilt by setting its fields in turn. -/
namespace EntityCatalog

theorem setField_new {name : String} {fields : List (String × Value)} (value : Value)
    (absent : name ∉ fields.map Prod.fst) :
    setField name value fields = fields ++ [(name, value)] := by
  induction fields with
  | nil => rfl
  | cons field rest ih =>
    simp only [List.map_cons, List.mem_cons, not_or] at absent
    simp [Ne.symm absent.1, ih absent.2]

theorem setField_names (name : String) (value : Value) (fields : List (String × Value)) :
    (setField name value fields).map Prod.fst =
      if name ∈ fields.map Prod.fst then fields.map Prod.fst
      else fields.map Prod.fst ++ [name] := by
  induction fields with
  | nil => simp
  | cons field rest ih =>
    by_cases same : field.1 = name
    · simp [same]
    · simp only [setField_other value same, List.map_cons, ih, List.mem_cons, Ne.symm same,
        false_or]
      split <;> rfl

theorem setField_nodup {name : String} {value : Value} {fields : List (String × Value)}
    (distinct : (fields.map Prod.fst).Nodup) :
    ((setField name value fields).map Prod.fst).Nodup := by
  rw [setField_names]
  split
  · exact distinct
  · rename_i absent
    refine List.nodup_append.mpr ⟨distinct, by simp, ?_⟩
    intro known member added at_end
    rw [List.mem_singleton.mp at_end]
    exact fun same => absent (same ▸ member)

theorem mem_setField {name : String} {value : Value} {fields : List (String × Value)}
    {found : String × Value} (member : found ∈ setField name value fields) :
    found = (name, value) ∨ found ∈ fields := by
  induction fields with
  | nil => simpa using member
  | cons field rest ih =>
    by_cases same : field.1 = name
    · rw [setField_known value same] at member
      rcases List.mem_cons.mp member with first | later
      · exact Or.inl first
      · exact Or.inr (List.mem_cons_of_mem field later)
    · rw [setField_other value same] at member
      rcases List.mem_cons.mp member with first | later
      · exact Or.inr (by simp [first])
      · exact (ih later).imp_right (List.mem_cons_of_mem field)

namespace Document

@[simp] theorem get?_set_same (d : Document) (name : String) (value : Value) :
    (d.set name value).get? name = some value := by
  obtain ⟨fields⟩ := d
  simp only [get?, set]
  induction fields with
  | nil => simp
  | cons field rest ih =>
    by_cases same : field.1 = name
    · simp [same]
    · simpa [List.find?_cons, same] using ih

@[simp] theorem get?_set_other (d : Document) {name key : String} (value : Value)
    (other : key ≠ name) :
    (d.set name value).get? key = d.get? key := by
  obtain ⟨fields⟩ := d
  simp only [get?, set]
  induction fields with
  | nil => simp [Ne.symm other]
  | cons field rest ih =>
    by_cases same : field.1 = name
    · simp [same, Ne.symm other]
    · simp only [setField_other value same, List.find?_cons]
      split
      · rfl
      · exact ih

theorem contains_eq_isSome (d : Document) (name : String) :
    d.contains name = (d.get? name).isSome := by
  rw [Bool.eq_iff_iff]
  simp [contains, get?]

theorem get?_eq_some_iff {d : Document} (distinct : d.keys.Nodup) {name : String} {value : Value} :
    d.get? name = some value ↔ (name, value) ∈ d.fields := by
  obtain ⟨fields⟩ := d
  simp only [get?, keys] at distinct ⊢
  induction fields with
  | nil => simp
  | cons field rest ih =>
    obtain ⟨absent, tail⟩ := List.nodup_cons.mp distinct
    rw [List.find?_cons, List.mem_cons]
    by_cases same : field.1 = name
    · subst same
      have elsewhere : (field.1, value) ∉ rest := by
        intro member
        exact absent (List.mem_map.mpr ⟨_, member, rfl⟩)
      simp [elsewhere, Prod.ext_iff, eq_comm]
    · have apart : (name, value) ≠ field := by
        intro equal
        exact same (congrArg Prod.fst equal).symm
      have missed : (field.1 == name) = false := by simpa using same
      simpa [missed, apart] using ih tail

end Document

theorem itemsDistinctNames_iff {items : List Value} :
    ItemsDistinctNames items ↔ ∀ item ∈ items, item.DistinctNames := by
  induction items with
  | nil => simp [ItemsDistinctNames]
  | cons item rest ih => simp [ItemsDistinctNames, ih]

theorem fieldsDistinctNames_iff {fields : List (String × Value)} :
    FieldsDistinctNames fields ↔ ∀ field ∈ fields, field.2.DistinctNames := by
  induction fields with
  | nil => simp [FieldsDistinctNames]
  | cons field rest ih => simp [FieldsDistinctNames, ih]

namespace Document

theorem distinctNames_iff {d : Document} :
    d.DistinctNames ↔ d.keys.Nodup ∧ ∀ field ∈ d.fields, field.2.DistinctNames := by
  simp [DistinctNames, toValue, Value.DistinctNames, keys, fieldsDistinctNames_iff]

theorem empty_distinctNames : empty.DistinctNames := by
  simp [distinctNames_iff, empty, keys]

theorem set_distinctNames {d : Document} {name : String} {value : Value}
    (distinct : d.DistinctNames) (inner : value.DistinctNames) :
    (d.set name value).DistinctNames := by
  rw [distinctNames_iff] at distinct ⊢
  refine ⟨setField_nodup distinct.1, fun field member => ?_⟩
  rcases mem_setField member with added | old
  · rw [added]
    exact inner
  · exact distinct.2 field old

theorem setAll_eq_append (d : Document) (fields : List (String × Value))
    (distinct : ((d.fields ++ fields).map Prod.fst).Nodup) :
    fields.foldl (fun d field => d.set field.1 field.2) d = ⟨d.fields ++ fields⟩ := by
  induction fields generalizing d with
  | nil => simp
  | cons field rest ih =>
    have absent : field.1 ∉ d.fields.map Prod.fst := by
      intro member
      rw [List.map_append, List.nodup_append] at distinct
      exact distinct.2.2 field.1 member field.1 (by simp) rfl
    have placed : (d.set field.1 field.2).fields = d.fields ++ [field] := by
      simp [set, setField_new field.2 absent]
    rw [List.foldl_cons, ih _ (by simpa [placed] using distinct), placed]
    simp

theorem ofFields_eq {fields : List (String × Value)} (distinct : (fields.map Prod.fst).Nodup) :
    ofFields fields = ⟨fields⟩ := by
  simpa [ofFields, empty] using setAll_eq_append empty fields (by simpa [empty] using distinct)

theorem restrict_eq_filter {d : Document} (distinct : d.keys.Nodup) (names : List String) :
    d.restrict names = ⟨d.fields.filter fun field => names.contains field.1⟩ := by
  apply ofFields_eq
  exact distinct.sublist (List.filter_sublist.map Prod.fst)

end Document
end EntityCatalog
