import EntityCatalog.Proofs.Catalog.Runs
import EntityCatalog.Proofs.Rows
import EntityCatalog.Proofs.Store.Runs

/- Lists of a catalog in memory. Whatever the catalog wrote, and whatever documents were put or
   removed beside it, a list has one row for each stored document that is asked for, and it is the
   row of the whole document, although only some of its fields are fetched. -/
namespace EntityCatalog
variable {σ ρ : Type}

theorem Document.get?_cut (d : Document) {names : List String} {name : String}
    (member : name ∈ names) : (d.cut (some names)).get? name = d.get? name := by
  have kept : ∀ field : String × Value,
      decide (names.contains field.1 = true ∧ (field.1 == name) = true) = (field.1 == name) := by
    intro field
    by_cases same : field.1 = name
    · simp [same, member]
    · simp [same]
  simp only [cut, get?, List.find?_filter, kept]

/-- Cutting a document down to the stored fields of a table loses nothing of its row. -/
theorem Table.row_cut (table : Table) (d : Document) :
    table.row (d.cut (some table.storedFields)) = table.row d := by
  apply Table.row_congr
  intro entry member
  exact d.get?_cut (List.mem_map_of_mem member)

namespace Catalog

inductive Step where
  | call (call : Call)
  | put (collection id : String) (d : Document)
  | delete (collection id : String)
  | clear

def Step.DistinctNames : Step → Prop
  | .put _ _ d => d.DistinctNames
  | _ => True

def advance (catalog : Catalog Store) : Step → Catalog Store
  | .call call => (catalog.perform call).1
  | .put collection id d =>
      match catalog.putDocument collection id d with
      | .ok next => next
      | .error _ => catalog
  | .delete collection id =>
      match catalog.deleteDocument collection id with
      | .ok (next, _) => next
      | .error _ => catalog
  | .clear => { catalog with state := catalog.state.clear }

/-- What a list says of the stored documents: every document can be read, those asked for are listed
    once each in the byte order of their ids, and a row is that of the whole document. Another
    request for the same entries makes the same rows. -/
def Lists (catalog : Catalog σ) (collection : String) (table : Table) (query : ListQuery)
    (listed : Except CatalogFault (List Document)) : Prop :=
  ∃ entries : List (String × Document),
    (entries.Pairwise fun first later => byteOrder first.1 later.1 = .lt) ∧
    (∀ id, ∃ content, catalog.gateway.get catalog.state collection id = .ok content ∧
      ∀ d, (id, d) ∈ entries ↔ content = some d ∧ (query.ids = [] ∨ id ∈ query.ids)) ∧
    listed = .ok (entries.map fun entry => (table.select query.fields).row entry.2) ∧
    (∀ entry ∈ entries,
      table.IsRow query.fields entry.2 ((table.select query.fields).row entry.2)) ∧
    ∀ requested, table.SameRequest requested query.fields →
      listed = .ok (entries.map fun entry => (table.select requested).row entry.2)

abbrev Kept := String → String → Document → Prop

/-- A document with an id of its own, or one that was put as it is beside the catalog. -/
def Origin (steps : List Step) : Kept := fun collection id d =>
  d.contains idField = true ∨ Step.put collection id d ∈ steps

def Within (shelf : Shelf) (kept : Kept) : Prop :=
  ∀ collection id d, shelf collection id = some d → kept collection id d

def Shows (method : Compression) (settings : Settings) (kept : Kept) (catalog : Catalog Store) :
    Prop :=
  ∃ shelf, catalog.Backed method settings shelf ∧ Within shelf kept

variable {method : Compression} {settings : Settings} {kept : Kept} {catalog next : Catalog Store}

theorem nothing_within : Within (fun _ _ => none) kept := by
  intro collection id d found
  cases found

theorem Within.set {shelf : Shelf} (within : Within shelf kept) {collection id : String}
    {content : Option Document} (fits : ∀ d, content = some d → kept collection id d) :
    Within (shelf.set collection id content) kept := by
  intro otherCollection otherId d found
  unfold Shelf.set at found
  split at found
  · rename_i here
    obtain ⟨rfl, rfl⟩ := here
    exact fits d found
  · exact within otherCollection otherId d found

theorem putDocument_shows (shows_kept : catalog.Shows method settings kept)
    (faithful : settings.Faithful method) {d : Document} (distinct : d.DistinctNames)
    {collection id : String} (fits : kept collection id d)
    (put : catalog.putDocument collection id d = .ok next) : next.Shows method settings kept := by
  obtain ⟨shelf, backed, within⟩ := shows_kept
  rcases putDocument_eq backed faithful distinct collection id with
    ⟨fault, -, failed⟩ | ⟨-, stored, accepted, stored_backed⟩
  · rw [failed] at put
    cases put
  · rw [accepted] at put
    cases put
    have placed : Within (shelf.set collection id (some d)) kept := by
      apply within.set
      intro found same
      cases same
      exact fits
    exact ⟨_, stored_backed, placed⟩

theorem deleteDocument_shows (shows_kept : catalog.Shows method settings kept)
    {collection id : String} {removed : Bool}
    (deleted : catalog.deleteDocument collection id = .ok (next, removed)) :
    next.Shows method settings kept := by
  obtain ⟨shelf, backed, within⟩ := shows_kept
  obtain ⟨left, made, left_backed⟩ := deleteDocument_eq backed collection id
  rw [made] at deleted
  cases deleted
  have taken : Within (shelf.set collection id none) kept := by
    apply within.set
    intro d found
    cases found
  exact ⟨_, left_backed, taken⟩

theorem settled_shows (shows_kept : catalog.Shows method settings kept) {answer : ρ → Answer}
    {outcome : Except CatalogFault (Catalog Store × ρ)}
    (moved : ∀ next result, outcome = .ok (next, result) → next.Shows method settings kept) :
    (catalog.settled answer outcome).1.Shows method settings kept := by
  cases outcome with
  | error fault => exact shows_kept
  | ok made => exact moved made.1 made.2 rfl

theorem written_shows (shows_kept : catalog.Shows method settings kept) {answer : ρ → Answer}
    {result : ρ} {put : Except CatalogFault (Catalog Store)}
    (moved : ∀ next, put = .ok next → next.Shows method settings kept) :
    (catalog.settled answer (put.map fun next => (next, result))).1.Shows method settings kept := by
  apply settled_shows shows_kept
  intro next found made
  obtain ⟨stored, accepted, same⟩ := map_eq_ok.mp made
  cases same
  exact moved _ accepted

theorem contains_of_stamped {d : Document} {version : Int32} {id : Value} {writtenAt : Int}
    (stamped : IdentifiedEnvelope.Stamped d version id writtenAt) : d.contains idField = true := by
  rw [Document.contains_eq_isSome, stamped.id]
  rfl

variable (with_id : ∀ collection id d, d.contains idField = true → kept collection id d)
include with_id

theorem putStructure_shows (shows_kept : catalog.Shows method settings kept)
    (faithful : settings.Faithful method) {s : Structure} {now : Int}
    (put : catalog.putStructure s now = .ok next) : next.Shows method settings kept := by
  unfold putStructure at put
  split at put
  · cases put
  · rename_i d written
    have identified := contains_of_stamped (Structure.stamped_of_encodeDocument written)
    exact putDocument_shows shows_kept faithful (Structure.encodeDocument_distinctNames written)
      (with_id _ _ d identified) put

theorem putComputation_shows (shows_kept : catalog.Shows method settings kept)
    (faithful : settings.Faithful method) {c : Computation} {now : Int}
    (put : catalog.putComputation c now = .ok next) : next.Shows method settings kept := by
  unfold putComputation at put
  split at put
  · cases put
  · rename_i d written
    have identified := contains_of_stamped (Computation.stamped_of_encodeDocument written)
    exact putDocument_shows shows_kept faithful
      (Computation.encodeDocument_distinctNames written) (with_id _ _ d identified) put

theorem perform_shows (shows_kept : catalog.Shows method settings kept)
    (faithful : settings.Faithful method) (call : Call) :
    (catalog.perform call).1.Shows method settings kept := by
  cases call with
  | createStructure fresh s now =>
    apply written_shows shows_kept
    intro next put
    exact putStructure_shows with_id shows_kept faithful put
  | updateStructure s now =>
    apply written_shows shows_kept
    intro next put
    exact putStructure_shows with_id shows_kept faithful put
  | deleteStructure id =>
    apply settled_shows shows_kept
    intro next removed deleted
    exact deleteDocument_shows shows_kept deleted
  | getStructure id => exact shows_kept
  | createComputation fresh c now =>
    apply written_shows shows_kept
    intro next put
    exact putComputation_shows with_id shows_kept faithful put
  | deleteComputation id =>
    apply settled_shows shows_kept
    intro next removed deleted
    exact deleteDocument_shows shows_kept deleted
  | getComputation id => exact shows_kept

theorem advance_shows (shows_kept : catalog.Shows method settings kept)
    (faithful : settings.Faithful method) {step : Step} (distinct : step.DistinctNames)
    (put_kept : ∀ collection id d, step = .put collection id d → kept collection id d) :
    (catalog.advance step).Shows method settings kept := by
  cases step with
  | call call => exact perform_shows with_id shows_kept faithful call
  | put collection id d =>
    unfold advance
    simp only
    split
    · rename_i next put
      exact putDocument_shows shows_kept faithful distinct (put_kept _ _ _ rfl) put
    · exact shows_kept
  | delete collection id =>
    unfold advance
    simp only
    split
    · rename_i next removed deleted
      exact deleteDocument_shows shows_kept deleted
    · exact shows_kept
  | clear =>
    obtain ⟨shelf, backed, -⟩ := shows_kept
    have cleared : catalog.state.clear.Shows method .empty := Store.clear_shows catalog.state
    exact ⟨.empty, ⟨backed.gateway, backed.settings, cleared⟩, nothing_within⟩

theorem steps_show (shows_kept : catalog.Shows method settings kept)
    (faithful : settings.Faithful method) {steps : List Step}
    (distinct : ∀ step ∈ steps, step.DistinctNames)
    (put_kept : ∀ collection id d, Step.put collection id d ∈ steps → kept collection id d) :
    (steps.foldl advance catalog).Shows method settings kept := by
  induction steps generalizing catalog with
  | nil => exact shows_kept
  | cons step rest ih =>
    apply ih
    · apply advance_shows with_id shows_kept faithful (distinct step (by simp))
      intro collection id d same
      exact put_kept collection id d (by simp [same])
    · intro later member
      exact distinct later (by simp [member])
    · intro collection id d member
      exact put_kept collection id d (by simp [member])

omit with_id

def shelved (shelf : Shelf) (collection : String) (ids : List String) : List (String × Document) :=
  ids.filterMap fun id => (shelf collection id).map fun d => (id, d)

theorem mem_shelved {shelf : Shelf} {collection : String} {ids : List String} {id : String}
    {d : Document} :
    (id, d) ∈ shelved shelf collection ids ↔ id ∈ ids ∧ shelf collection id = some d := by
  simp only [shelved, List.mem_filterMap, Option.map_eq_some_iff, Prod.mk.injEq]
  constructor
  · rintro ⟨other, member, found, held, rfl, rfl⟩
    exact ⟨member, held⟩
  · intro both
    exact ⟨id, both.1, d, both.2, rfl, rfl⟩

theorem shelved_ascending {shelf : Shelf} {collection : String} {ids : List String}
    (ascending : ids.Pairwise fun first later => byteOrder first later = .lt) :
    (shelved shelf collection ids).Pairwise
      fun first later => byteOrder first.1 later.1 = .lt := by
  apply List.pairwise_filterMap.mpr
  apply ascending.imp
  intro first later before entry found other other_found
  obtain ⟨d, -, rfl⟩ := Option.map_eq_some_iff.mp found
  obtain ⟨e, -, rfl⟩ := Option.map_eq_some_iff.mp other_found
  exact before

/-- Fetching only the fields behind the selection makes the rows of the whole documents. -/
theorem rows_shelved (selected : Table) (shelf : Shelf) (collection : String)
    (ids : List String) :
    (ids.filterMap fun id =>
        (shelf collection id).map (Document.cut (some selected.storedFields))).map selected.row =
      (shelved shelf collection ids).map fun entry => selected.row entry.2 := by
  unfold shelved
  rw [List.map_filterMap, List.map_filterMap]
  congr 1
  funext id
  cases shelf collection id with
  | none => rfl
  | some d => exact congrArg some (selected.row_cut d)

theorem listRows_lists (shows_kept : catalog.Shows method settings kept) (collection : String)
    {table : Table} (distinct : table.DistinctNames) (query : ListQuery) :
    catalog.Lists collection table query (catalog.listRows collection table query) := by
  obtain ⟨shelf, backed, -⟩ := shows_kept
  obtain ⟨ids, selects, found⟩ := Store.find_eq backed.shows collection query.ids
    (some (table.select query.fields).storedFields)
  have listed : catalog.listRows collection table query =
      .ok ((shelved shelf collection ids).map fun entry =>
        (table.select query.fields).row entry.2) := by
    rw [← rows_shelved]
    unfold listRows
    rw [backed.gateway]
    simp only [Gateway.memory, found]
  refine ⟨shelved shelf collection ids, shelved_ascending selects.1, ?_, listed, ?_, ?_⟩
  · intro id
    refine ⟨shelf collection id, getDocument_eq backed collection id, ?_⟩
    intro d
    rw [mem_shelved, selects.2 id]
    constructor
    · rintro ⟨⟨-, asked⟩, held⟩
      exact ⟨held, asked⟩
    · rintro ⟨held, asked⟩
      exact ⟨⟨by rw [held]; rfl, asked⟩, held⟩
  · intro entry member
    exact Table.select_isRow distinct query.fields entry.2
  · intro requested same
    rw [Table.select_congr same]
    exact listed

theorem getDocument_kept (shows_kept : catalog.Shows method settings kept) {collection id : String}
    {d : Document} (found : catalog.gateway.get catalog.state collection id = .ok (some d)) :
    kept collection id d := by
  obtain ⟨shelf, backed, within⟩ := shows_kept
  rw [getDocument_eq backed] at found
  exact within collection id d (Except.ok.inj found)

/-- Both lists agree with the documents, and a document without an id of its own is one that was
    put beside the catalog. The settings of the store may differ from those that the catalog
    declares. -/
theorem lists_agree_with_documents (method : Compression) (settings declared : Settings)
    (faithful : settings.Faithful method) (steps : List Step)
    (distinct : ∀ step ∈ steps, step.DistinctNames) (query : ListQuery) :
    let catalog := steps.foldl advance ⟨.memory method, declared, .new settings⟩
    catalog.Lists structureCollection structureTable query (catalog.listStructures query) ∧
      catalog.Lists computationCollection computationTable query
        (catalog.listComputations query) ∧
      ∀ collection id d, catalog.gateway.get catalog.state collection id = .ok (some d) →
        Origin steps collection id d := by
  have initial : Shows method settings (Origin steps)
      ⟨.memory method, declared, .new settings⟩ :=
    ⟨_, ⟨rfl, rfl, Store.new_shows method settings⟩, nothing_within⟩
  have shows_kept := steps_show (fun collection id d => Or.inl) initial faithful distinct
    (fun collection id d => Or.inr)
  constructor
  · exact listRows_lists shows_kept structureCollection structureTable_distinctNames query
  · constructor
    · exact listRows_lists shows_kept computationCollection computationTable_distinctNames query
    · intro collection id d found
      exact getDocument_kept shows_kept found

/-- Both collections, with documents that lack fields or have others besides; one put is undone by
    a later one, and one is removed. -/
def sampleSteps : List Step :=
  [.call (.createStructure ⟨"s-2"⟩ sampleStructure 1700000000000000),
    .put structureCollection "s-1" ⟨[("extra", .null), (elementsField, .int32 7)]⟩,
    .call (.createComputation ⟨"c-1"⟩ sampleComputation 0),
    .put computationCollection "c-0" ⟨[(statusField, .null), (idField, .string "other")]⟩,
    .put structureCollection "s-0" .empty, .delete structureCollection "s-0",
    .put computationCollection "c-1" ⟨[(resultField, .string "2")]⟩]

theorem sample_lists_agree :
    ({ Settings.standard with compressed := true }).Faithful storedFrames ∧
      (∀ step ∈ sampleSteps, step.DistinctNames) ∧
      let catalog := sampleSteps.foldl advance ⟨.memory storedFrames, .standard,
        .new { Settings.standard with compressed := true }⟩
      let query : ListQuery := ⟨["s-2", "c-1", "none", "s-1"], ["status", "nope", "status"]⟩
      catalog.Lists structureCollection structureTable query (catalog.listStructures query) ∧
        catalog.Lists computationCollection computationTable query
          (catalog.listComputations query) ∧
        ∀ collection id d, catalog.gateway.get catalog.state collection id = .ok (some d) →
          Origin sampleSteps collection id d := by
  have faithful : ({ Settings.standard with compressed := true }).Faithful storedFrames :=
    fun _ => storedFrames_faithful
  have distinct : ∀ step ∈ sampleSteps, step.DistinctNames := by
    simp [sampleSteps, Step.DistinctNames, Document.DistinctNames, Document.toValue,
      Value.DistinctNames, FieldsDistinctNames, Document.empty, elementsField, statusField,
      idField]
  exact ⟨faithful, distinct, lists_agree_with_documents _ _ _ faithful sampleSteps distinct _⟩

/-- A document that was put without an id has a row without one, although every field is listed. -/
theorem row_without_id :
    (([Step.put structureCollection "s-1" ⟨[(elementsField, .null)]⟩].foldl advance
        (inMemory storedFrames Settings.standard)).listStructures ⟨[], []⟩).toOption =
      some [⟨[("elements", .null)]⟩] ∧
    publicId ∉ Document.keys ⟨[("elements", .null)]⟩ := by
  decide +kernel

end Catalog
end EntityCatalog
