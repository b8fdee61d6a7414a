import EntityCatalog.Proofs.Results
import EntityCatalog.Proofs.SortedMap
import EntityCatalog.Proofs.Wire.RoundTrip
import EntityCatalog.Store

/- What a store holds, as documents. Every stored form reads back, under the settings of the store,
   as the document it was made from; each operation changes the documents at one place or not at
   all, and answers from them. -/
namespace EntityCatalog

instance : Std.LawfulEqCmp byteOrder where
  eq_of_compare same := byteOrder_eq_iff.mp same

abbrev Shelf := String → String → Option Document

def Shelf.set (shelf : Shelf) (name id : String) (content : Option Document) : Shelf :=
  fun otherName otherId =>
    if otherName = name ∧ otherId = id then content else shelf otherName otherId

inductive Store.Shown (method : Compression) (settings : Settings) :
    Option Bytes → Option Document → Prop where
  | absent : Shown method settings none none
  | present {bytes : Bytes} {d : Document} (readable : unpack method settings bytes = .ok d)
      (distinct : d.keys.Nodup) : Shown method settings (some bytes) (some d)

namespace Store.Shown
variable {method : Compression} {settings : Settings} {content : Option Document}

theorem isSome_eq {stored : Option Bytes} (shown : Shown method settings stored content) :
    content.isSome = stored.isSome := by
  cases shown <;> rfl

theorem readable_of_some {bytes : Bytes} (shown : Shown method settings (some bytes) content) :
    ∃ d, content = some d ∧ unpack method settings bytes = .ok d ∧ d.keys.Nodup := by
  cases shown with
  | present readable distinct => exact ⟨_, rfl, readable, distinct⟩

end Store.Shown

def Store.Shows (method : Compression) (store : Store) (shelf : Shelf) : Prop :=
  ∀ name id, Shown method store.settings ((store.collection name).get? id) (shelf name id)

/-- Compression matters only where it is switched on. -/
def Settings.Faithful (method : Compression) (settings : Settings) : Prop :=
  settings.compressed = true → method.Faithful

/-- The stored ids of a collection that are asked for, in byte order; no ids ask for all. -/
def Shelf.Selects (shelf : Shelf) (name : String) (ids selected : List String) : Prop :=
  (selected.Pairwise fun first later => byteOrder first later = .lt) ∧
    ∀ id, id ∈ selected ↔ (shelf name id).isSome = true ∧ (ids = [] ∨ id ∈ ids)

def Document.cut (fields : Option (List String)) (d : Document) : Document :=
  match fields with
  | none => d
  | some names => ⟨d.fields.filter fun field => names.contains field.1⟩

namespace Store
variable {method : Compression} {store next : Store} {shelf : Shelf} {name id : String}
  {d : Document}

theorem unpack_pack {settings : Settings} (faithful : settings.Faithful method)
    (distinct : d.DistinctNames) {bytes : Bytes} (packed : pack method settings d = .ok bytes) :
    unpack method settings bytes = .ok d := by
  have read : decode method settings.limits bytes = .ok d := by
    unfold pack at packed
    split at packed
    · rename_i compressed
      exact decode_of_encodePacked (faithful compressed) distinct (mapError_eq_ok.mp packed)
    · exact decode_of_encode method distinct (mapError_eq_ok.mp packed)
  rw [unpack, read]
  rfl

theorem collection_update (store : Store) (name other : String) (documents : Collection) :
    ({ store with collections := store.collections.insert name documents } : Store).collection
      other = if other = name then documents else store.collection other := by
  unfold collection
  split
  · rename_i same
    rw [same, SortedMap.get?_insert_same]
    rfl
  · rename_i apart
    rw [SortedMap.get?_insert_other _ _ (mt byteOrder_eq_iff.mp apart)]

theorem new_shows (method : Compression) (settings : Settings) :
    (new settings).Shows method fun _ _ => none := by
  intro name id
  exact .absent

theorem update_shows (shows_shelf : store.Shows method shelf) (documents : Collection)
    {content : Option Document}
    (here : Shown method store.settings (documents.get? id) content)
    (elsewhere : ∀ other, other ≠ id →
      documents.get? other = (store.collection name).get? other) :
    Shows method { store with collections := store.collections.insert name documents }
      (shelf.set name id content) := by
  intro otherName otherId
  rw [collection_update]
  unfold Shelf.set
  by_cases same_name : otherName = name
  · subst same_name
    rw [if_pos rfl]
    by_cases same_id : otherId = id
    · subst same_id
      rw [if_pos ⟨rfl, rfl⟩]
      exact here
    · rw [if_neg (fun both => same_id both.2), elsewhere otherId same_id]
      exact shows_shelf otherName otherId
  · rw [if_neg same_name, if_neg (fun both => same_name both.1)]
    exact shows_shelf otherName otherId

theorem put_shows (shows_shelf : store.Shows method shelf)
    (faithful : store.settings.Faithful method) (distinct : d.DistinctNames)
    (put : store.put method name id d = .ok next) :
    next.Shows method (shelf.set name id (some d)) ∧ next.settings = store.settings := by
  unfold Store.put at put
  split at put
  · contradiction
  · rename_i bytes packed
    cases put
    refine ⟨update_shows shows_shelf _ ?_ ?_, rfl⟩
    · rw [SortedMap.get?_insert_same]
      exact .present (unpack_pack faithful distinct packed)
        (Document.distinctNames_iff.mp distinct).1
    · intro other apart
      exact SortedMap.get?_insert_other _ _ (mt byteOrder_eq_iff.mp apart)

theorem get_eq (shows_shelf : store.Shows method shelf) (name id : String) :
    store.get method name id = .ok (shelf name id) := by
  have shown := shows_shelf name id
  unfold Store.get
  generalize (store.collection name).get? id = stored at shown
  generalize shelf name id = content at shown
  cases shown with
  | absent => rfl
  | present readable distinct =>
    simp only [readable]
    rfl

theorem delete_shows (shows_shelf : store.Shows method shelf) (name id : String) :
    (store.delete name id).1.Shows method (shelf.set name id none) ∧
      (store.delete name id).2 = (shelf name id).isSome ∧
      (store.delete name id).1.settings = store.settings := by
  unfold Store.delete
  split
  · rename_i missing
    have empty : store.collection name = .empty := by
      rw [collection, missing]
      rfl
    have nothing : shelf name id = none := by
      have absent := (shows_shelf name id).isSome_eq
      rw [empty, SortedMap.get?_empty] at absent
      simpa using absent
    have unchanged : shelf.set name id none = shelf := by
      funext otherName otherId
      unfold Shelf.set
      split
      · rename_i here
        rw [here.1, here.2, nothing]
      · rfl
    rw [unchanged, nothing]
    exact ⟨shows_shelf, rfl, rfl⟩
  · rename_i documents held
    have same : store.collection name = documents := by
      rw [collection, held]
      rfl
    refine ⟨update_shows shows_shelf _ ?_ ?_, ?_, rfl⟩
    · rw [SortedMap.get?_erase_same]
      exact .absent
    · intro other apart
      rw [same]
      exact SortedMap.get?_erase_other _ (mt byteOrder_eq_iff.mp apart)
    · rw [SortedMap.contains_eq_isSome, ← same, (shows_shelf name id).isSome_eq]

theorem chosen_selects (shows_shelf : store.Shows method shelf) (name : String)
    (ids : List String) :
    shelf.Selects name ids (((store.collection name).entries.filter fun entry =>
      ids.isEmpty || ids.contains entry.1).map Prod.fst) := by
  constructor
  · exact List.pairwise_map.mpr ((store.collection name).ascending.filter _)
  · intro id
    have stored := (shows_shelf name id).isSome_eq
    have held : (∃ bytes, (id, bytes) ∈ (store.collection name).entries) ↔
        (shelf name id).isSome = true := by
      simp only [SortedMap.mem_entries_iff, stored, Option.isSome_iff_exists]
    simp only [List.mem_map, List.mem_filter, Prod.exists, exists_and_right, exists_eq_right,
      Bool.or_eq_true, List.isEmpty_iff, List.contains_iff_mem, ← held]

theorem find_eq (shows_shelf : store.Shows method shelf) (name : String) (ids : List String)
    (fields : Option (List String)) :
    ∃ selected, shelf.Selects name ids selected ∧ store.find method name ids fields =
      .ok (selected.filterMap fun id => (shelf name id).map (Document.cut fields)) := by
  refine ⟨_, chosen_selects shows_shelf name ids, ?_⟩
  rw [List.filterMap_map]
  apply mapM_eq_filterMap
  intro entry member
  have held := SortedMap.mem_entries_iff.mp (List.mem_filter.mp member).1
  have shown := shows_shelf name entry.1
  rw [held] at shown
  obtain ⟨d, seen, readable, distinct⟩ := shown.readable_of_some
  refine ⟨d.cut fields, ?_, by simp [seen]⟩
  rw [readable]
  cases fields with
  | none => rfl
  | some names => exact congrArg Except.ok (Document.restrict_eq_filter distinct names)

theorem size_eq (shows_shelf : store.Shows method shelf) (name : String) :
    ∃ all, shelf.Selects name [] all ∧ store.size name = all.length := by
  refine ⟨_, chosen_selects shows_shelf name [], ?_⟩
  rw [List.filter_eq_self.mpr (by intro entry _; rfl), List.length_map]
  rfl

end Store
end EntityCatalog
