import EntityCatalog.Proofs.Catalog.Contents

/- Runs of a catalog in memory. Whatever calls came before, structures and computations mixed, the
   answer to a call is the one that a ledger of entities gives: what was last written under an id is
   what is read under it, and a refused call leaves no trace. -/
namespace EntityCatalog
variable {σ ρ : Type}

namespace Catalog

/-- A call that creates brings the fresh id along, and one that writes the time of writing. -/
inductive Call where
  | createStructure (fresh : StructureId) (s : Structure) (now : Int)
  | updateStructure (s : Structure) (now : Int)
  | deleteStructure (id : StructureId)
  | getStructure (id : StructureId)
  | createComputation (fresh : ComputationId) (c : Computation) (now : Int)
  | deleteComputation (id : ComputationId)
  | getComputation (id : ComputationId)

inductive Answer where
  | structure (s : Structure)
  | computation (c : Computation)
  | structureFound (content : Option Structure)
  | computationFound (content : Option Computation)
  | removed (present : Bool)
  | failed (fault : CatalogFault)

def Call.Valid : Call → Prop
  | .createStructure _ s now => s.Readable ∧ Timestamp.FourDigitYear now
  | .updateStructure s now => s.Readable ∧ Timestamp.FourDigitYear now
  | .createComputation _ _ now => Timestamp.FourDigitYear now
  | _ => True

def answered (answer : ρ → Answer) : Except CatalogFault ρ → Answer
  | .ok result => answer result
  | .error fault => .failed fault

def settled (catalog : Catalog σ) (answer : ρ → Answer) :
    Except CatalogFault (Catalog σ × ρ) → Catalog σ × Answer
  | .ok (next, result) => (next, answer result)
  | .error fault => (catalog, .failed fault)

def perform (catalog : Catalog σ) : Call → Catalog σ × Answer
  | .createStructure fresh s now =>
      catalog.settled .structure (catalog.createStructure fresh s now)
  | .updateStructure s now => catalog.settled .structure (catalog.updateStructure s now)
  | .deleteStructure id => catalog.settled .removed (catalog.deleteStructure id)
  | .getStructure id => (catalog, answered .structureFound (catalog.getStructure id))
  | .createComputation fresh c now =>
      catalog.settled .computation (catalog.createComputation fresh c now)
  | .deleteComputation id => catalog.settled .removed (catalog.deleteComputation id)
  | .getComputation id => (catalog, answered .computationFound (catalog.getComputation id))

def run (catalog : Catalog σ) : List Call → List (Call × Answer)
  | [] => []
  | call :: rest =>
      let result := catalog.perform call
      (call, result.2) :: result.1.run rest

/-- Why an entity with this document is not stored, if it is not. -/
def refusal? (method : Compression) (settings : Settings)
    (written : Except GraphTooLarge Document) : Option CatalogFault :=
  match written with
  | .error fault => some (.notWritable fault)
  | .ok d =>
      match Store.pack method settings d with
      | .error fault => some (.storage fault)
      | .ok _ => none

def newComputation (fresh : ComputationId) (c : Computation) : Computation :=
  ⟨fresh, c.structureId, c.elementName, c.formula, .new, none⟩

end Catalog

namespace Ledger
open Catalog (Call Answer refusal? newComputation)

def after (ledger : Ledger) : Call → Answer → Ledger
  | .createStructure fresh s _, .structure _ => ledger.setStructure fresh (some (s.withId fresh))
  | .updateStructure s _, .structure _ => ledger.setStructure s.id (some s)
  | .deleteStructure id, _ => ledger.setStructure id none
  | .createComputation fresh c _, .computation _ =>
      ledger.setComputation fresh (some (newComputation fresh c))
  | .deleteComputation id, _ => ledger.setComputation id none
  | _, _ => ledger

/-- The answer that the ledger gives. Whether an entity is stored depends on that entity alone. -/
def Answers (method : Compression) (settings : Settings) (ledger : Ledger) :
    Call → Answer → Prop
  | .createStructure fresh s now, answer =>
      answer = (refusal? method settings
        (Structure.envelope.encodeDocument (s.withId fresh) now)).elim
        (.structure (s.withId fresh)) .failed
  | .updateStructure s now, answer =>
      answer = (refusal? method settings (Structure.envelope.encodeDocument s now)).elim
        (.structure s) .failed
  | .deleteStructure id, answer => answer = .removed (ledger.structures id).isSome
  | .getStructure id, answer =>
      answer = .structureFound (ledger.structures id) ∧ ∀ s ∈ ledger.structures id, s.id = id
  | .createComputation fresh c now, answer =>
      answer = (refusal? method settings
        (Computation.envelope.encodeDocument (newComputation fresh c) now)).elim
        (.computation (newComputation fresh c)) .failed
  | .deleteComputation id, answer => answer = .removed (ledger.computations id).isSome
  | .getComputation id, answer =>
      answer = .computationFound (ledger.computations id) ∧
        ∀ c ∈ ledger.computations id, c.id = id

/-- Every answer of a run is the one that the ledger gives at that point. -/
def Explains (method : Compression) (settings : Settings) (ledger : Ledger) :
    List (Call × Answer) → Prop
  | [] => True
  | (call, answer) :: rest =>
      ledger.Answers method settings call answer ∧
        (ledger.after call answer).Explains method settings rest

end Ledger

namespace Catalog

structure Backed (method : Compression) (settings : Settings) (catalog : Catalog Store)
    (shelf : Shelf) : Prop where
  gateway : catalog.gateway = .memory method
  settings : catalog.state.settings = settings
  shows : catalog.state.Shows method shelf

/-- A catalog whose documents are those of the entities in the ledger. -/
def Represents (method : Compression) (settings : Settings) (catalog : Catalog Store)
    (ledger : Ledger) : Prop :=
  ∃ shelf, catalog.Backed method settings shelf ∧ ledger.StoredOn shelf

variable {method : Compression} {settings : Settings} {catalog : Catalog Store} {shelf : Shelf}
  {ledger : Ledger}

theorem getDocument_eq (backed : catalog.Backed method settings shelf) (collection id : String) :
    catalog.gateway.get catalog.state collection id = .ok (shelf collection id) := by
  rw [backed.gateway]
  exact Store.get_eq backed.shows collection id

theorem deleteDocument_eq (backed : catalog.Backed method settings shelf)
    (collection id : String) :
    ∃ next : Catalog Store,
      catalog.deleteDocument collection id = .ok (next, (shelf collection id).isSome) ∧
        next.Backed method settings (shelf.set collection id none) := by
  obtain ⟨shown, present, kept⟩ := Store.delete_shows backed.shows collection id
  refine ⟨{ catalog with state := (catalog.state.delete collection id).1 }, ?_, ?_⟩
  · unfold deleteDocument
    rw [backed.gateway, ← present]
    rfl
  · exact ⟨backed.gateway, kept.trans backed.settings, shown⟩

theorem putDocument_eq (backed : catalog.Backed method settings shelf)
    (faithful : settings.Faithful method) {d : Document} (distinct : d.DistinctNames)
    (collection id : String) :
    (∃ fault, refusal? method settings (.ok d) = some fault ∧
        catalog.putDocument collection id d = .error fault) ∨
      refusal? method settings (.ok d) = none ∧
        ∃ next, catalog.putDocument collection id d = .ok next ∧
          next.Backed method settings (shelf.set collection id (some d)) := by
  obtain ⟨gateway, rfl, shows⟩ := backed
  unfold refusal? putDocument
  rw [gateway]
  cases packed : Store.pack method catalog.state.settings d with
  | error fault =>
    refine Or.inl ⟨.storage fault, by simp only [packed], ?_⟩
    simp only [Gateway.memory, Store.put, packed]
  | ok bytes =>
    obtain ⟨next, stored⟩ : ∃ next, catalog.state.put method collection id d = .ok next :=
      ⟨_, by simp only [Store.put, packed]; rfl⟩
    obtain ⟨shown, kept⟩ := Store.put_shows shows faithful distinct stored
    refine Or.inr ⟨by simp only [packed], { catalog with state := next }, ?_,
      ⟨gateway, kept, shown⟩⟩
    simp only [Gateway.memory, stored, gateway]

theorem putWritten_eq (represents : catalog.Represents method settings ledger)
    (faithful : settings.Faithful method) {written : Except GraphTooLarge Document}
    {put : Except CatalogFault (Catalog Store)} {collection id : String} {after : Ledger}
    (large : ∀ fault, written = .error fault → put = .error (.notWritable fault))
    (small : ∀ d, written = .ok d → put = catalog.putDocument collection id d)
    (distinct : ∀ d, written = .ok d → d.DistinctNames)
    (placed : ∀ shelf d, written = .ok d → ledger.StoredOn shelf →
      after.StoredOn (shelf.set collection id (some d))) :
    (∃ fault, refusal? method settings written = some fault ∧ put = .error fault) ∨
      refusal? method settings written = none ∧
        ∃ next, put = .ok next ∧ next.Represents method settings after := by
  obtain ⟨shelf, backed, stored⟩ := represents
  cases written with
  | error fault => exact Or.inl ⟨.notWritable fault, rfl, large fault rfl⟩
  | ok d =>
    rw [small d rfl]
    rcases putDocument_eq backed faithful (distinct d rfl) collection id with
      refused | ⟨accepted, next, put, next_backed⟩
    · exact Or.inl refused
    · exact Or.inr ⟨accepted, next, put, _, next_backed, placed shelf d rfl stored⟩

theorem putStructure_eq (represents : catalog.Represents method settings ledger)
    (faithful : settings.Faithful method) {s : Structure} (readable : s.Readable) {now : Int}
    (year : Timestamp.FourDigitYear now) :
    (∃ fault, refusal? method settings (Structure.envelope.encodeDocument s now) = some fault ∧
        catalog.putStructure s now = .error fault) ∨
      refusal? method settings (Structure.envelope.encodeDocument s now) = none ∧
        ∃ next, catalog.putStructure s now = .ok next ∧
          next.Represents method settings (ledger.setStructure s.id (some s)) := by
  apply putWritten_eq represents faithful
  · intro fault large
    simp only [putStructure, large]
  · intro d written
    simp only [putStructure, written]
    rfl
  · intro d written
    exact Structure.encodeDocument_distinctNames written
  · intro shelf d written stored
    have reads := Structure.decodeDocument_of_encodeDocument readable year written
    apply Ledger.setStructure_storedOn stored (.present reads)
    intro other same
    cases same
    rfl

theorem putComputation_eq (represents : catalog.Represents method settings ledger)
    (faithful : settings.Faithful method) {c : Computation} (readable : c.Readable) {now : Int}
    (year : Timestamp.FourDigitYear now) :
    (∃ fault, refusal? method settings (Computation.envelope.encodeDocument c now) = some fault ∧
        catalog.putComputation c now = .error fault) ∨
      refusal? method settings (Computation.envelope.encodeDocument c now) = none ∧
        ∃ next, catalog.putComputation c now = .ok next ∧
          next.Represents method settings (ledger.setComputation c.id (some c)) := by
  apply putWritten_eq represents faithful
  · intro fault large
    simp only [putComputation, large]
  · intro d written
    simp only [putComputation, written]
    rfl
  · intro d written
    exact Computation.encodeDocument_distinctNames written
  · intro shelf d written stored
    have reads := Computation.decodeDocument_of_encodeDocument readable year written
    apply Ledger.setComputation_storedOn stored (.present reads)
    intro other same
    cases same
    rfl

theorem perform_answers (represents : catalog.Represents method settings ledger)
    (faithful : settings.Faithful method) (call : Call) (valid : call.Valid) :
    ledger.Answers method settings call (catalog.perform call).2 ∧
      (catalog.perform call).1.Represents method settings
        (ledger.after call (catalog.perform call).2) := by
  have given := represents
  obtain ⟨shelf, backed, stored⟩ := given
  cases call with
  | createStructure fresh s now =>
    rcases putStructure_eq represents faithful (s := s.withId fresh) valid.1 valid.2 with
      ⟨fault, refused, failed⟩ | ⟨accepted, next, put, represented⟩
    · have answered : catalog.perform (.createStructure fresh s now) =
          (catalog, .failed fault) := by
        simp only [perform, createStructure, failed]
        rfl
      rw [answered]
      exact ⟨by simp only [Ledger.Answers, refused, Option.elim_some], represents⟩
    · have answered : catalog.perform (.createStructure fresh s now) =
          (next, .structure (s.withId fresh)) := by
        simp only [perform, createStructure, put]
        rfl
      rw [answered]
      exact ⟨by simp only [Ledger.Answers, accepted, Option.elim_none], represented⟩
  | updateStructure s now =>
    rcases putStructure_eq represents faithful valid.1 valid.2 with
      ⟨fault, refused, failed⟩ | ⟨accepted, next, put, represented⟩
    · have answered : catalog.perform (.updateStructure s now) = (catalog, .failed fault) := by
        simp only [perform, updateStructure, failed]
        rfl
      rw [answered]
      exact ⟨by simp only [Ledger.Answers, refused, Option.elim_some], represents⟩
    · have answered : catalog.perform (.updateStructure s now) = (next, .structure s) := by
        simp only [perform, updateStructure, put]
        rfl
      rw [answered]
      exact ⟨by simp only [Ledger.Answers, accepted, Option.elim_none], represented⟩
  | deleteStructure id =>
    obtain ⟨next, deleted, next_backed⟩ := deleteDocument_eq backed structureCollection id.text
    have answered : catalog.perform (.deleteStructure id) =
        (next, .removed (ledger.structures id).isSome) := by
      simp only [perform, deleteStructure, deleted, (stored.structures id).isSome_eq]
      rfl
    rw [answered]
    exact ⟨rfl, _, next_backed,
      Ledger.setStructure_storedOn stored .absent fun _ found => by cases found⟩
  | getStructure id =>
    have answered : catalog.perform (.getStructure id) =
        (catalog, .structureFound (ledger.structures id)) := by
      simp only [perform, getStructure, getDocument_eq backed,
        (stored.structures id).readStored_eq]
      rfl
    rw [answered]
    exact ⟨⟨rfl, stored.structure_ids id⟩, represents⟩
  | createComputation fresh c now =>
    have readable : (newComputation fresh c).Readable := fun value found => by cases found
    rcases putComputation_eq represents faithful readable valid with
      ⟨fault, refused, failed⟩ | ⟨accepted, next, put, represented⟩
    · have answered : catalog.perform (.createComputation fresh c now) =
          (catalog, .failed fault) := by
        unfold newComputation at failed
        simp only [perform, createComputation, failed]
        rfl
      rw [answered]
      exact ⟨by simp only [Ledger.Answers, refused, Option.elim_some], represents⟩
    · have answered : catalog.perform (.createComputation fresh c now) =
          (next, .computation (newComputation fresh c)) := by
        unfold newComputation at put
        simp only [perform, createComputation, put]
        rfl
      rw [answered]
      exact ⟨by simp only [Ledger.Answers, accepted, Option.elim_none], represented⟩
  | deleteComputation id =>
    obtain ⟨next, deleted, next_backed⟩ := deleteDocument_eq backed computationCollection id.text
    have answered : catalog.perform (.deleteComputation id) =
        (next, .removed (ledger.computations id).isSome) := by
      simp only [perform, deleteComputation, deleted, (stored.computations id).isSome_eq]
      rfl
    rw [answered]
    exact ⟨rfl, _, next_backed,
      Ledger.setComputation_storedOn stored .absent fun _ found => by cases found⟩
  | getComputation id =>
    have answered : catalog.perform (.getComputation id) =
        (catalog, .computationFound (ledger.computations id)) := by
      simp only [perform, getComputation, getDocument_eq backed,
        (stored.computations id).readStored_eq]
      rfl
    rw [answered]
    exact ⟨⟨rfl, stored.computation_ids id⟩, represents⟩

theorem inMemory_represents (method : Compression) (settings : Settings) :
    (inMemory method settings).Represents method settings .empty :=
  ⟨fun _ _ => none, ⟨rfl, rfl, Store.new_shows method settings⟩, Ledger.empty_storedOn⟩

theorem run_explained (represents : catalog.Represents method settings ledger)
    (faithful : settings.Faithful method) (calls : List Call)
    (valid : ∀ call ∈ calls, call.Valid) :
    ledger.Explains method settings (catalog.run calls) := by
  induction calls generalizing catalog ledger with
  | nil => trivial
  | cons call rest ih =>
    obtain ⟨answered, represented⟩ :=
      perform_answers represents faithful call (valid call (by simp))
    exact ⟨answered, ih represented fun later member => valid later (by simp [member])⟩

theorem catalog_runs_as_ledger (method : Compression) (settings : Settings)
    (faithful : settings.Faithful method) (calls : List Call)
    (valid : ∀ call ∈ calls, call.Valid) :
    Ledger.empty.Explains method settings ((inMemory method settings).run calls) :=
  run_explained (inMemory_represents method settings) faithful calls valid

def sampleCalls : List Call :=
  [.createStructure ⟨"s-1"⟩ sampleStructure 1700000000000000, .getStructure ⟨"s-1"⟩,
    .createComputation ⟨"s-1"⟩ sampleComputation 0, .getComputation ⟨"s-1"⟩,
    .updateStructure (sampleStructure.withId ⟨"s-2"⟩) 1, .deleteStructure ⟨"s-1"⟩,
    .getStructure ⟨"s-1"⟩, .getStructure ⟨"s-2"⟩, .deleteComputation ⟨"s-1"⟩,
    .deleteComputation ⟨"s-1"⟩]

theorem sample_runs_as_ledger :
    ({ Settings.standard with compressed := true }).Faithful storedFrames ∧
      (∀ call ∈ sampleCalls, call.Valid) ∧
      Ledger.empty.Explains storedFrames { Settings.standard with compressed := true }
        ((inMemory storedFrames { Settings.standard with compressed := true }).run
          sampleCalls) := by
  have faithful : ({ Settings.standard with compressed := true }).Faithful storedFrames :=
    fun _ => storedFrames_faithful
  have late : Timestamp.FourDigitYear 1700000000000000 := by decide
  have first : Timestamp.FourDigitYear 0 ∧ Timestamp.FourDigitYear 1 := by decide
  have renamed : (sampleStructure.withId ⟨"s-2"⟩).Readable := sampleStructure_readable
  have valid : ∀ call ∈ sampleCalls, call.Valid := by
    simp [sampleCalls, Call.Valid, sampleStructure_readable, renamed, late, first]
  exact ⟨faithful, valid, catalog_runs_as_ledger _ _ faithful sampleCalls valid⟩

end Catalog
end EntityCatalog
