import EntityCatalog.Proofs.Fields
import EntityCatalog.Catalog

/- Rows of a table. A row has the entries that are asked for and that the document carries, in the
   order of the table, whatever the order and the number of the names in the request. -/
namespace EntityCatalog
namespace Table
variable {table : Table}

def DistinctNames (table : Table) : Prop := (table.map TableEntry.publicName).Nodup

/-- The id is always asked for, and everything is if nothing is named. -/
def Asked (requested : List String) (entry : TableEntry) : Prop :=
  requested = [] ∨ entry.publicName = publicId ∨ entry.publicName ∈ requested

instance (requested : List String) (entry : TableEntry) : Decidable (Asked requested entry) :=
  inferInstanceAs (Decidable (_ ∨ _))

/-- Requests that name the same entries; other names and repeats do not count. -/
def SameRequest (table : Table) (requested other : List String) : Prop :=
  (requested = [] ↔ other = []) ∧
    ∀ entry ∈ table, entry.publicName ∈ requested ↔ entry.publicName ∈ other

/-- The row of a document: the public names of the entries that are asked for and carried, in the
    order of the table, with the stored values; every other entry is missing. -/
structure IsRow (table : Table) (requested : List String) (d row : Document) : Prop where
  keys : row.keys = (table.filter fun entry =>
    Asked requested entry && d.contains entry.field).map TableEntry.publicName
  values : ∀ entry ∈ table, row.get? entry.publicName =
    if Asked requested entry then d.get? entry.field else none

theorem select_eq_filter (table : Table) (requested : List String) :
    table.select requested = table.filter fun entry => decide (Asked requested entry) := by
  unfold select
  split
  · rename_i everything
    apply (List.filter_eq_self.mpr _).symm
    intro entry member
    exact decide_eq_true (Or.inl everything)
  · rename_i named
    simp [Asked, named]

theorem select_congr {requested other : List String} (same : table.SameRequest requested other) :
    table.select requested = table.select other := by
  rw [select_eq_filter, select_eq_filter]
  apply List.filter_congr
  intro entry member
  apply decide_eq_decide.mpr
  unfold Asked
  rw [same.1, same.2 entry member]

theorem entry_eq_of_publicName (distinct : table.DistinctNames) {entry other : TableEntry}
    (member : entry ∈ table) (other_member : other ∈ table)
    (same : entry.publicName = other.publicName) : entry = other := by
  unfold DistinctNames at distinct
  induction table with
  | nil => simp at member
  | cons first rest ih =>
    obtain ⟨absent, tail⟩ := List.nodup_cons.mp distinct
    rcases List.mem_cons.mp member with rfl | later
    · rcases List.mem_cons.mp other_member with rfl | other_later
      · rfl
      · exact absurd (same ▸ List.mem_map_of_mem other_later) absent
    · rcases List.mem_cons.mp other_member with rfl | other_later
      · exact absurd (same ▸ List.mem_map_of_mem later) absent
      · exact ih tail later other_later

def cells (table : Table) (d : Document) : List (String × Value) :=
  table.filterMap fun entry => (d.get? entry.field).map fun value => (entry.publicName, value)

theorem cells_names (table : Table) (d : Document) :
    (table.cells d).map Prod.fst =
      (table.filter fun entry => d.contains entry.field).map TableEntry.publicName := by
  unfold cells
  induction table with
  | nil => rfl
  | cons entry rest ih =>
    rw [List.filterMap_cons, List.filter_cons, Document.contains_eq_isSome]
    cases d.get? entry.field with
    | none => exact ih
    | some value => exact congrArg (entry.publicName :: ·) ih

theorem row_congr {d other : Document}
    (same : ∀ entry ∈ table, d.get? entry.field = other.get? entry.field) :
    table.row d = table.row other := by
  have cells_eq : table.cells d = table.cells other := by
    unfold cells
    induction table with
    | nil => rfl
    | cons entry rest ih =>
      have onward := ih fun later member => same later (by simp [member])
      rw [List.filterMap_cons, List.filterMap_cons, same entry (by simp), onward]
  exact congrArg Document.ofFields cells_eq

theorem DistinctNames.filter (distinct : table.DistinctNames) (p : TableEntry → Bool) :
    DistinctNames (table.filter p) :=
  List.Nodup.sublist (List.filter_sublist.map TableEntry.publicName) distinct

theorem row_fields (distinct : table.DistinctNames) (d : Document) :
    (table.row d).fields = table.cells d ∧ (table.row d).keys.Nodup := by
  have names : ((table.cells d).map Prod.fst).Nodup := by
    rw [cells_names]
    exact distinct.filter _
  have row_eq : table.row d = ⟨table.cells d⟩ := Document.ofFields_eq names
  rw [row_eq]
  exact ⟨rfl, names⟩

theorem row_get? (distinct : table.DistinctNames) {entry : TableEntry} (member : entry ∈ table)
    (p : TableEntry → Bool) (d : Document) :
    (row (table.filter p) d).get? entry.publicName =
      if p entry then d.get? entry.field else none := by
  obtain ⟨fields, names⟩ := row_fields (distinct.filter p) d
  apply Option.ext
  intro value
  rw [Document.get?_eq_some_iff names, fields]
  simp only [cells, List.mem_filterMap, List.mem_filter, Option.map_eq_some_iff, Prod.mk.injEq]
  constructor
  · rintro ⟨other, ⟨other_member, kept⟩, found, held, same, rfl⟩
    cases entry_eq_of_publicName distinct other_member member same
    rw [if_pos kept]
    exact held
  · intro found
    split at found
    · rename_i kept
      exact ⟨entry, ⟨member, kept⟩, value, found, rfl, rfl⟩
    · cases found

theorem select_isRow (distinct : table.DistinctNames) (requested : List String) (d : Document) :
    table.IsRow requested d ((table.select requested).row d) := by
  rw [select_eq_filter]
  constructor
  · obtain ⟨fields, -⟩ := row_fields (distinct.filter fun entry => Asked requested entry) d
    rw [Document.keys, fields, cells_names, List.filter_filter]
    simp only [Bool.and_comm]
  · intro entry member
    rw [row_get? distinct member]
    simp only [decide_eq_true_eq]

end Table

theorem structureTable_distinctNames : Table.DistinctNames structureTable := by
  unfold Table.DistinctNames
  decide

theorem computationTable_distinctNames : Table.DistinctNames computationTable := by
  unfold Table.DistinctNames
  decide

end EntityCatalog
