import EntityCatalog.Proofs.Store.Contents

/- Runs of a store. Whatever requests came before, in whatever order, the answer to a request is the
   one that the documents on a shelf give, where a put that was accepted sets a document, a removal
   takes it away, clearing takes all away, and nothing else changes the shelf. -/
namespace EntityCatalog

namespace Store

inductive Request where
  | put (name id : String) (d : Document)
  | get (name id : String)
  | delete (name id : String)
  | find (name : String) (ids : List String) (fields : Option (List String))
  | size (name : String)
  | clear

inductive Answer where
  | accepted
  | found (content : Option Document)
  | removed (present : Bool)
  | listed (documents : List Document)
  | counted (documents : Nat)
  | cleared
  | failed (fault : StoreFault)

def Request.DistinctNames : Request → Prop
  | .put _ _ d => d.DistinctNames
  | _ => True

/-- A request that fails leaves the store as it was. -/
def perform (method : Compression) (store : Store) : Request → Store × Answer
  | .put name id d =>
      match store.put method name id d with
      | .ok next => (next, .accepted)
      | .error fault => (store, .failed fault)
  | .get name id =>
      match store.get method name id with
      | .ok content => (store, .found content)
      | .error fault => (store, .failed fault)
  | .delete name id => ((store.delete name id).1, .removed (store.delete name id).2)
  | .find name ids fields =>
      match store.find method name ids fields with
      | .ok documents => (store, .listed documents)
      | .error fault => (store, .failed fault)
  | .size name => (store, .counted (store.size name))
  | .clear => (store.clear, .cleared)

def run (method : Compression) (store : Store) : List Request → List (Request × Answer)
  | [] => []
  | request :: rest =>
      let result := store.perform method request
      (request, result.2) :: result.1.run method rest

end Store

namespace Shelf
open Store (Request Answer)

def empty : Shelf := fun _ _ => none

def after (shelf : Shelf) : Request → Answer → Shelf
  | .put name id d, .accepted => shelf.set name id (some d)
  | .delete name id, _ => shelf.set name id none
  | .clear, _ => empty
  | _, _ => shelf

/-- The answer that the shelf gives. Whether a put is accepted depends on the document alone. -/
def Answers (method : Compression) (settings : Settings) (shelf : Shelf) :
    Request → Answer → Prop
  | .put _ _ d, answer =>
      answer = match Store.pack method settings d with
        | .ok _ => .accepted
        | .error fault => .failed fault
  | .get name id, answer => answer = .found (shelf name id)
  | .delete name id, answer => answer = .removed (shelf name id).isSome
  | .find name ids fields, answer => ∃ selected, shelf.Selects name ids selected ∧
      answer = .listed (selected.filterMap fun id => (shelf name id).map (Document.cut fields))
  | .size name, answer => ∃ all, shelf.Selects name [] all ∧ answer = .counted all.length
  | .clear, answer => answer = .cleared

/-- Every answer of a run is the one that the shelf gives at that point. -/
def Explains (method : Compression) (settings : Settings) (shelf : Shelf) :
    List (Request × Answer) → Prop
  | [] => True
  | (request, answer) :: rest =>
      shelf.Answers method settings request answer ∧
        (shelf.after request answer).Explains method settings rest

end Shelf

namespace Store
variable {method : Compression} {store : Store} {shelf : Shelf}

theorem clear_shows (store : Store) : store.clear.Shows method .empty := by
  intro name id
  exact .absent

theorem perform_answers (shows_shelf : store.Shows method shelf)
    (faithful : store.settings.Faithful method) (request : Request)
    (distinct : request.DistinctNames) :
    shelf.Answers method store.settings request (store.perform method request).2 ∧
      (store.perform method request).1.Shows method
        (shelf.after request (store.perform method request).2) ∧
      (store.perform method request).1.settings = store.settings := by
  cases request with
  | put name id d =>
    cases packed : pack method store.settings d with
    | error fault =>
      have refused : store.perform method (.put name id d) = (store, .failed fault) := by
        simp only [perform, put, packed]
      rw [refused]
      exact ⟨by simp only [Shelf.Answers, packed], shows_shelf, rfl⟩
    | ok bytes =>
      obtain ⟨next, stored⟩ : ∃ next, store.put method name id d = .ok next :=
        ⟨_, by simp only [put, packed]; rfl⟩
      have accepted : store.perform method (.put name id d) = (next, .accepted) := by
        simp only [perform, stored]
      rw [accepted]
      exact ⟨by simp only [Shelf.Answers, packed],
        put_shows shows_shelf faithful distinct stored⟩
  | get name id =>
    have answered : store.perform method (.get name id) = (store, .found (shelf name id)) := by
      simp only [perform, get_eq shows_shelf]
    rw [answered]
    exact ⟨rfl, shows_shelf, rfl⟩
  | delete name id =>
    obtain ⟨shown, present, kept⟩ := delete_shows shows_shelf name id
    exact ⟨congrArg Answer.removed present, shown, kept⟩
  | find name ids fields =>
    obtain ⟨selected, selects, listed⟩ := find_eq shows_shelf name ids fields
    have answered : store.perform method (.find name ids fields) = (store,
        .listed (selected.filterMap fun id => (shelf name id).map (Document.cut fields))) := by
      simp only [perform, listed]
    rw [answered]
    exact ⟨⟨selected, selects, rfl⟩, shows_shelf, rfl⟩
  | size name =>
    obtain ⟨all, selects, counted⟩ := size_eq shows_shelf name
    exact ⟨⟨all, selects, congrArg Answer.counted counted⟩, shows_shelf, rfl⟩
  | clear => exact ⟨rfl, clear_shows store, rfl⟩

theorem run_explained (shows_shelf : store.Shows method shelf)
    (faithful : store.settings.Faithful method) (requests : List Request)
    (distinct : ∀ request ∈ requests, request.DistinctNames) :
    shelf.Explains method store.settings (store.run method requests) := by
  induction requests generalizing store shelf with
  | nil => trivial
  | cons request rest ih =>
    obtain ⟨answered, shown, kept⟩ := perform_answers shows_shelf faithful request
      (distinct request (by simp))
    refine ⟨answered, ?_⟩
    rw [← kept] at faithful ⊢
    exact ih shown faithful fun later member => distinct later (by simp [member])

theorem store_runs_as_shelf (method : Compression) (settings : Settings)
    (faithful : settings.Faithful method) (requests : List Request)
    (distinct : ∀ request ∈ requests, request.DistinctNames) :
    Shelf.empty.Explains method settings ((Store.new settings).run method requests) :=
  run_explained (new_shows method settings) faithful requests distinct

def sampleSettings : Settings := ⟨true, 19, ⟨60, 8, 4, 2⟩⟩

def sampleRequests : List Request :=
  [.put "c" "b" ⟨[("x", .int32 1), ("y", .null)]⟩, .put "c" "a" ⟨[("y", .array [.document []])]⟩,
    .put "c" "b" ⟨[("nine byte", .null)]⟩, .get "c" "b",
    .find "c" ["b", "z", "b", "a"] (some ["y"]), .delete "c" "b", .delete "c" "b",
    .size "c", .clear, .get "c" "a"]

theorem sample_runs_as_shelf :
    sampleSettings.Faithful storedFrames ∧ (∀ request ∈ sampleRequests, request.DistinctNames) ∧
      Shelf.empty.Explains storedFrames sampleSettings
        ((Store.new sampleSettings).run storedFrames sampleRequests) := by
  have faithful : sampleSettings.Faithful storedFrames := fun _ => storedFrames_faithful
  have distinct : ∀ request ∈ sampleRequests, request.DistinctNames := by
    simp [sampleRequests, Request.DistinctNames, Document.DistinctNames, Document.toValue,
      Value.DistinctNames, ItemsDistinctNames, FieldsDistinctNames]
  exact ⟨faithful, distinct, store_runs_as_shelf storedFrames sampleSettings faithful
    sampleRequests distinct⟩

end Store
end EntityCatalog
