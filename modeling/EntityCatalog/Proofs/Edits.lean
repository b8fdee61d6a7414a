import EntityCatalog.Proofs.Fields

/- Documents after any insertions and removals. What a document holds, and in which order, is told by
   the edits that were made: a name has the value that it was last given unless it was removed since,
   and it stands behind the names that have been there for longer. -/
namespace EntityCatalog

inductive Edit where
  | insert (name : String) (value : Value)
  | remove (name : String)

namespace Edit

def name : Edit → String
  | .insert name _ => name
  | .remove name => name

def ofField (field : String × Value) : Edit := .insert field.1 field.2

/-- The last edit of the name gave it the value. -/
def LastSet (past : List Edit) (name : String) (value : Value) : Prop :=
  ∃ before after, past = before ++ .insert name value :: after ∧ ∀ edit ∈ after, edit.name ≠ name

/-- The edit at the position brought the name in, and it has stayed in since. -/
def Introduced (past : List Edit) (name : String) (position : Nat) : Prop :=
  ∃ before value after, past = before ++ .insert name value :: after ∧ before.length = position ∧
    (∀ old, ¬ LastSet before name old) ∧ .remove name ∉ after

theorem concat_split {past before after : List Edit} {last edit : Edit} :
    past ++ [last] = before ++ edit :: after ↔
      (past = before ∧ last = edit ∧ after = []) ∨
        ∃ between, after = between ++ [last] ∧ past = before ++ edit :: between := by
  constructor
  · intro split
    rcases List.eq_nil_or_concat after with rfl | ⟨between, final, whole⟩
    · obtain ⟨same, end_same⟩ := List.append_inj' split rfl
      exact Or.inl ⟨same, List.singleton_inj.mp end_same, rfl⟩
    · rw [List.concat_eq_append] at whole
      subst whole
      have longer : past ++ [last] = (before ++ edit :: between) ++ [final] := by simpa using split
      obtain ⟨same, end_same⟩ := List.append_inj' longer rfl
      rw [List.singleton_inj.mp end_same]
      exact Or.inr ⟨between, rfl, same⟩
  · rintro (⟨rfl, rfl, rfl⟩ | ⟨between, rfl, rfl⟩)
    · rfl
    · simp

theorem lastSet_concat {past : List Edit} {edit : Edit} {name : String} {value : Value} :
    LastSet (past ++ [edit]) name value ↔
      edit = .insert name value ∨ edit.name ≠ name ∧ LastSet past name value := by
  constructor
  · rintro ⟨before, after, split, apart⟩
    rcases concat_split.mp split with ⟨-, last, -⟩ | ⟨between, rfl, rfl⟩
    · exact Or.inl last
    · exact Or.inr ⟨apart edit (by simp), before, between, rfl, fun other member =>
        apart other (by simp [member])⟩
  · rintro (rfl | ⟨apart, before, after, rfl, since⟩)
    · exact ⟨past, [], rfl, by simp⟩
    · refine ⟨before, after ++ [edit], by simp, ?_⟩
      intro other member
      rcases List.mem_append.mp member with old | new
      · exact since other old
      · rwa [List.mem_singleton.mp new]

theorem introduced_concat {past : List Edit} {edit : Edit} {name : String} {position : Nat} :
    Introduced (past ++ [edit]) name position ↔
      (past.length = position ∧ (∃ value, edit = .insert name value) ∧
        ∀ old, ¬ LastSet past name old) ∨
      edit ≠ .remove name ∧ Introduced past name position := by
  constructor
  · rintro ⟨before, value, after, split, place, new, kept⟩
    rcases concat_split.mp split with ⟨rfl, rfl, -⟩ | ⟨between, rfl, rfl⟩
    · exact Or.inl ⟨place, ⟨value, rfl⟩, new⟩
    · have apart : edit ≠ .remove name := by
        rintro rfl
        exact kept (by simp)
      exact Or.inr ⟨apart, before, value, between, rfl, place, new, fun removed =>
        kept (by simp [removed])⟩
  · rintro (⟨place, ⟨value, rfl⟩, new⟩ | ⟨apart, before, value, after, rfl, place, new, kept⟩)
    · exact ⟨past, value, [], rfl, place, new, by simp⟩
    · refine ⟨before, value, after ++ [edit], by simp, place, new, ?_⟩
      intro removed
      rcases List.mem_append.mp removed with old | last
      · exact kept old
      · exact apart (List.mem_singleton.mp last).symm

theorem introduced_insert {past : List Edit} {added name : String} {value : Value}
    {position : Nat} : Introduced (past ++ [.insert added value]) name position ↔
      (past.length = position ∧ name = added ∧ ∀ old, ¬ LastSet past name old) ∨
        Introduced past name position := by
  simp [introduced_concat, eq_comm]

theorem introduced_remove {past : List Edit} {removed name : String} {position : Nat} :
    Introduced (past ++ [.remove removed]) name position ↔
      name ≠ removed ∧ Introduced past name position := by
  simp [introduced_concat, eq_comm]

theorem Introduced.before_end {past : List Edit} {name : String} {position : Nat}
    (introduced : Introduced past name position) : position < past.length := by
  obtain ⟨before, value, after, rfl, rfl, -⟩ := introduced
  simp

end Edit

namespace Document
open Edit

def edit (d : Document) : Edit → Document × Option Value
  | .insert name value => d.insert name value
  | .remove name => d.remove name

@[simp] theorem edit_insert (d : Document) (name : String) (value : Value) :
    d.edit (.insert name value) = d.insert name value := rfl

@[simp] theorem edit_remove (d : Document) (name : String) :
    d.edit (.remove name) = d.remove name := rfl

def edited (d : Document) (edits : List Edit) : Document :=
  edits.foldl (fun d edit => (d.edit edit).1) d

structure Shows (d : Document) (past : List Edit) : Prop where
  distinct : d.keys.Nodup
  values : ∀ name value, d.get? name = some value ↔ LastSet past name value
  introduced : ∀ name, name ∈ d.keys ↔ ∃ position, Introduced past name position
  ordered : d.keys.Pairwise fun earlier later => ∀ i j,
    Introduced past earlier i → Introduced past later j → i < j

theorem mem_keys_iff {d : Document} {name : String} :
    name ∈ d.keys ↔ ∃ value, d.get? name = some value := by
  rw [← Option.isSome_iff_exists, ← contains_eq_isSome]
  simp [keys, contains]

theorem remove_eq (d : Document) (name : String) :
    d.remove name = (⟨d.fields.eraseP fun field => field.1 == name⟩, d.get? name) := by
  unfold remove get?
  rw [List.eraseP_eq_eraseIdx]
  cases found : d.fields.findIdx? fun field => field.1 == name with
  | none =>
    have absent := List.findIdx?_eq_none_iff.mp found
    have nothing : d.fields.find? (fun field => field.1 == name) = none :=
      List.find?_eq_none.mpr fun field member => by simpa using absent field member
    rw [nothing]
    rfl
  | some position =>
    obtain ⟨inside, same, first⟩ := List.findIdx?_eq_some_iff_getElem.mp found
    have there : d.fields.find? (fun field => field.1 == name) = some d.fields[position] :=
      List.find?_eq_some_iff_getElem.mpr ⟨same, position, inside, rfl, by simpa using first⟩
    simp only [there, List.getElem?_eq_getElem inside]

theorem eraseP_eq_filter {fields : List (String × Value)} (distinct : (fields.map Prod.fst).Nodup)
    (name : String) :
    (fields.eraseP fun field => field.1 == name) = fields.filter fun field => field.1 ≠ name := by
  -- No other field of the name is left behind the first one.
  induction fields with
  | nil => rfl
  | cons field rest ih =>
    obtain ⟨absent, tail⟩ := List.nodup_cons.mp distinct
    by_cases same : field.1 = name
    · subst same
      have others : (rest.filter fun other => other.1 ≠ field.1) = rest := by
        refine List.filter_eq_self.mpr fun other member => ?_
        rw [decide_eq_true_eq]
        intro equal
        exact absent (List.mem_map.mpr ⟨other, member, equal⟩)
      rw [List.eraseP_cons_of_pos (by simp), List.filter_cons_of_neg (by simp), others]
    · simpa [same] using ih tail

theorem edit_previous (d : Document) (edit : Edit) : (d.edit edit).2 = d.get? edit.name := by
  cases edit with
  | insert name value => rfl
  | remove name => exact congrArg Prod.snd (remove_eq d name)

theorem setField_others (name : String) (value : Value) (fields : List (String × Value)) :
    ((setField name value fields).filter fun field => field.1 ≠ name) =
      fields.filter fun field => field.1 ≠ name := by
  induction fields with
  | nil => simp
  | cons field rest ih =>
    by_cases same : field.1 = name
    · simp [same]
    · simpa [same] using ih

theorem eraseP_others (name : String) (fields : List (String × Value)) :
    ((fields.eraseP fun field => field.1 == name).filter fun field => field.1 ≠ name) =
      fields.filter fun field => field.1 ≠ name := by
  induction fields with
  | nil => rfl
  | cons field rest ih =>
    by_cases same : field.1 = name
    · simp [same]
    · simpa [same] using ih

theorem edit_others (d : Document) (edit : Edit) :
    ((d.edit edit).1.fields.filter fun field => field.1 ≠ edit.name) =
      d.fields.filter fun field => field.1 ≠ edit.name := by
  cases edit with
  | insert name value => exact setField_others name value d.fields
  | remove name =>
    rw [edit_remove, remove_eq]
    exact eraseP_others name d.fields

theorem keys_insert (d : Document) (name : String) (value : Value) :
    (d.insert name value).1.keys = if name ∈ d.keys then d.keys else d.keys ++ [name] :=
  setField_names name value d.fields

theorem keys_remove {d : Document} (distinct : d.keys.Nodup) (name : String) :
    (d.remove name).1.keys = d.keys.filter fun key => key ≠ name := by
  rw [remove_eq]
  unfold keys at distinct ⊢
  rw [eraseP_eq_filter distinct, List.filter_map]
  rfl

theorem get?_remove_same {d : Document} (distinct : d.keys.Nodup) (name : String) :
    (d.remove name).1.get? name = none := by
  have absent : name ∉ (d.remove name).1.keys := by
    rw [keys_remove distinct]
    simp
  exact Option.eq_none_iff_forall_ne_some.mpr fun value found =>
    absent (mem_keys_iff.mpr ⟨value, found⟩)

theorem get?_of_others {left right : Document} {name key : String} (apart : key ≠ name)
    (others : (left.fields.filter fun field => field.1 ≠ name) =
      right.fields.filter fun field => field.1 ≠ name) : left.get? key = right.get? key := by
  -- What a name has is told by the fields of all names but another one.
  have kept (fields : List (String × Value)) :
      ((fields.filter fun field => field.1 ≠ name).find? fun field => field.1 == key) =
        fields.find? fun field => field.1 == key := by
    rw [List.find?_filter]
    congr 1
    funext field
    by_cases same : field.1 = key
    · simp [same, apart]
    · simp [same]
  unfold get?
  rw [← kept left.fields, others, kept]

theorem edit_distinct {d : Document} (distinct : d.keys.Nodup) (edit : Edit) :
    (d.edit edit).1.keys.Nodup := by
  cases edit with
  | insert name value => exact setField_nodup distinct
  | remove name =>
    rw [edit_remove, keys_remove distinct]
    exact distinct.filter _

theorem empty_shows : empty.Shows [] := by
  constructor
  · exact List.nodup_nil
  · simp [LastSet, get?, empty]
  · simp [Introduced, keys, empty]
  · exact List.Pairwise.nil

namespace Shows
variable {d : Document} {past : List Edit}

theorem absent_iff (shows : d.Shows past) (name : String) :
    name ∉ d.keys ↔ ∀ old, ¬ LastSet past name old := by
  rw [mem_keys_iff, not_exists]
  exact forall_congr' fun value => not_congr (shows.values name value)

theorem get?_edit (shows : d.Shows past) (edit : Edit) (name : String) (value : Value) :
    (d.edit edit).1.get? name = some value ↔ LastSet (past ++ [edit]) name value := by
  rw [lastSet_concat]
  by_cases named : name = edit.name
  · subst named
    cases edit with
    | insert name new =>
      have given : (d.insert name new).1.get? name = some new := get?_set_same d name new
      simp [Edit.name, given]
    | remove name => simp [Edit.name, get?_remove_same shows.distinct name]
  · have apart : edit ≠ .insert name value := fun same => named (congrArg Edit.name same).symm
    rw [get?_of_others named (edit_others d edit), shows.values]
    simp [apart, Ne.symm named]

theorem introduced_known (shows : d.Shows past) {added : String} (known : added ∈ d.keys)
    (value : Value) (name : String) (position : Nat) :
    Introduced (past ++ [.insert added value]) name position ↔ Introduced past name position := by
  rw [introduced_insert, ← shows.absent_iff]
  constructor
  · rintro (⟨-, rfl, absent⟩ | before)
    · exact absurd known absent
    · exact before
  · exact Or.inr

theorem introduced_new (shows : d.Shows past) {added : String} (new : added ∉ d.keys)
    (value : Value) (name : String) (position : Nat) :
    Introduced (past ++ [.insert added value]) name position ↔
      (past.length = position ∧ name = added) ∨ Introduced past name position := by
  rw [introduced_insert, ← shows.absent_iff]
  constructor
  · rintro (⟨last, same, -⟩ | before)
    · exact Or.inl ⟨last, same⟩
    · exact Or.inr before
  · rintro (⟨last, rfl⟩ | before)
    · exact Or.inl ⟨last, rfl, new⟩
    · exact Or.inr before

theorem mem_keys_edit (shows : d.Shows past) (edit : Edit) (name : String) :
    name ∈ (d.edit edit).1.keys ↔ ∃ position, Introduced (past ++ [edit]) name position := by
  cases edit with
  | insert added value =>
    rw [edit_insert, keys_insert]
    split
    · rename_i known
      simp only [shows.introduced_known known, shows.introduced]
    · rename_i new
      simp only [shows.introduced_new new, exists_or, exists_and_right, exists_eq', true_and,
        ← shows.introduced]
      rw [List.mem_append, List.mem_singleton, or_comm]
  | remove removed =>
    simp only [introduced_remove, exists_and_left]
    rw [edit_remove, keys_remove shows.distinct, List.mem_filter, shows.introduced,
      decide_eq_true_eq, and_comm]

theorem ordered_edit (shows : d.Shows past) (edit : Edit) :
    (d.edit edit).1.keys.Pairwise fun earlier later => ∀ i j,
      Introduced (past ++ [edit]) earlier i → Introduced (past ++ [edit]) later j → i < j := by
  -- An edit brings a name in behind all others, or it leaves their order as it was.
  cases edit with
  | insert added value =>
    rw [edit_insert, keys_insert]
    split
    · rename_i known
      simpa only [shows.introduced_known known] using shows.ordered
    · rename_i new
      simp only [shows.introduced_new new]
      refine List.pairwise_append.mpr ⟨?_, List.pairwise_singleton _ _, ?_⟩
      · refine shows.ordered.imp_of_mem ?_
        rintro earlier later first_known second_known before i j
          (⟨-, rfl⟩ | first) (⟨-, rfl⟩ | second)
        · exact absurd first_known new
        · exact absurd first_known new
        · exact absurd second_known new
        · exact before i j first second
      · intro earlier known later last i j first second
        rw [List.mem_singleton] at last
        subst last
        have early : i < past.length := by
          rcases first with ⟨-, rfl⟩ | first
          · exact absurd known new
          · exact first.before_end
        have latest : past.length = j := by
          rcases second with ⟨same, -⟩ | second
          · exact same
          · exact absurd ((shows.introduced later).mpr ⟨j, second⟩) new
        omega
  | remove removed =>
    simp only [introduced_remove]
    rw [edit_remove, keys_remove shows.distinct]
    refine (shows.ordered.filter _).imp ?_
    rintro earlier later before i j ⟨-, first⟩ ⟨-, second⟩
    exact before i j first second

theorem edit (shows : d.Shows past) (edit : Edit) : (d.edit edit).1.Shows (past ++ [edit]) := by
  constructor
  · exact edit_distinct shows.distinct edit
  · exact shows.get?_edit edit
  · exact shows.mem_keys_edit edit
  · exact shows.ordered_edit edit

theorem edited (shows : d.Shows past) (edits : List Edit) :
    (d.edited edits).Shows (past ++ edits) := by
  -- By induction on the edits that are still to come.
  induction edits generalizing d past with
  | nil =>
    rw [List.append_nil]
    exact shows
  | cons edit rest ih =>
    rw [List.append_cons]
    exact ih (shows.edit edit)

end Shows

theorem ofFields_shows (given : List (String × Value)) :
    (ofFields given).Shows (given.map .ofField) := by
  have inserted : ofFields given = empty.edited (given.map .ofField) := by
    rw [edited, List.foldl_map]
    rfl
  rw [inserted]
  exact empty_shows.edited _

/-- A document made from any fields and then edited in any way holds what the fields and the edits
    tell. One more edit returns what its name had, and nothing changes for the other names. -/
theorem edits_tell_document (given : List (String × Value)) (edits : List Edit) :
    ((ofFields given).edited edits).Shows (given.map .ofField ++ edits) ∧
    ∀ edit,
      (∀ value, (((ofFields given).edited edits).edit edit).2 = some value ↔
        LastSet (given.map .ofField ++ edits) edit.name value) ∧
      ((((ofFields given).edited edits).edit edit).1.fields.filter
          fun field => field.1 ≠ edit.name) =
        ((ofFields given).edited edits).fields.filter fun field => field.1 ≠ edit.name := by
  have shows := (ofFields_shows given).edited edits
  refine ⟨shows, fun edit => ⟨fun value => ?_, edit_others _ edit⟩⟩
  rw [edit_previous]
  exact shows.values edit.name value

/-- A name that comes back stands behind one that has stayed. -/
example :
    ((ofFields [("a", .null), ("b", .null), ("a", .bool true)]).edited
      [.remove "a", .insert "b" (.bool false), .insert "a" .null]).fields =
      [("b", .bool false), ("a", .null)] := by
  decide

end Document
end EntityCatalog
