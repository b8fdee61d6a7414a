import EntityCatalog.SortedMap

/- Sorted maps as finite functions. Looking up after an insertion or a removal sees the change at
   that key and nothing elsewhere, and entries inserted in ascending order are kept as they are. -/
namespace EntityCatalog
variable {κ ν : Type} {cmp : κ → κ → Ordering}

theorem find_insertEntry_same [Std.TransCmp cmp] (key : κ) (value : ν) (entries : List (κ × ν)) :
    (insertEntry cmp key value entries).find? (fun entry => cmp key entry.1 == .eq) =
      some (key, value) := by
  have self : cmp key key = .eq := Std.ReflCmp.compare_self
  induction entries with
  | nil => simp [self]
  | cons entry rest ih =>
    cases order : cmp key entry.1 with
    | lt => simp [order, self]
    | eq => simp [order, self]
    | gt => simpa [List.find?_cons, order] using ih

theorem find_insertEntry_other [Std.TransCmp cmp] {key other : κ} (value : ν)
    (entries : List (κ × ν)) (apart : cmp other key ≠ .eq) :
    (insertEntry cmp key value entries).find? (fun entry => cmp other entry.1 == .eq) =
      entries.find? fun entry => cmp other entry.1 == .eq := by
  induction entries with
  | nil => simp [apart]
  | cons entry rest ih =>
    cases order : cmp key entry.1 with
    | lt => simp [order, apart]
    | eq =>
      have missed : cmp other entry.1 ≠ .eq := by
        rw [← Std.TransCmp.congr_right order]
        exact apart
      simp [order, apart, missed]
    | gt =>
      simp only [insertEntry_gt order, List.find?_cons]
      split
      · rfl
      · exact ih

theorem insertEntry_last {key : κ} (value : ν) {entries : List (κ × ν)}
    (after : ∀ entry ∈ entries, cmp key entry.1 = .gt) :
    insertEntry cmp key value entries = entries ++ [(key, value)] := by
  induction entries with
  | nil => rfl
  | cons entry rest ih =>
    have first := after entry (by simp)
    rw [insertEntry_gt first, List.cons_append, ih fun later member => after later (by simp [member])]

namespace SortedMap

theorem entries_inj {left right : SortedMap κ ν cmp} (same : left.entries = right.entries) :
    left = right := by
  cases left
  cases right
  cases same
  rfl

@[simp] theorem get?_empty (key : κ) : (empty : SortedMap κ ν cmp).get? key = none := rfl

@[simp] theorem get?_insert_same [Std.TransCmp cmp] (map : SortedMap κ ν cmp) (key : κ)
    (value : ν) :
    (map.insert key value).get? key = some value := by
  simp [get?, insert, find_insertEntry_same]

@[simp] theorem get?_insert_other [Std.TransCmp cmp] (map : SortedMap κ ν cmp) {key other : κ}
    (value : ν)
    (apart : cmp other key ≠ .eq) : (map.insert key value).get? other = map.get? other := by
  simp [get?, insert, find_insertEntry_other value map.entries apart]

@[simp] theorem get?_erase_same (map : SortedMap κ ν cmp) (key : κ) :
    (map.erase key).get? key = none := by
  simp [get?, erase, List.find?_filter]

@[simp] theorem get?_erase_other [Std.TransCmp cmp] (map : SortedMap κ ν cmp) {key other : κ}
    (apart : cmp other key ≠ .eq) : (map.erase key).get? other = map.get? other := by
  have kept : ∀ entry : κ × ν, decide ((cmp key entry.1 != .eq) = true ∧
      (cmp other entry.1 == .eq) = true) = (cmp other entry.1 == .eq) := by
    intro entry
    cases found : cmp other entry.1 with
    | lt => simp
    | gt => simp
    | eq =>
      have missed : cmp key entry.1 ≠ .eq := by
        intro hit
        exact apart (Std.TransCmp.eq_trans found (Std.OrientedCmp.eq_symm hit))
      simp [missed]
  simp only [get?, erase, List.find?_filter, kept]

theorem contains_eq_isSome (map : SortedMap κ ν cmp) (key : κ) :
    map.contains key = (map.get? key).isSome := by
  rw [Bool.eq_iff_iff]
  simp [contains, get?]

theorem get?_of_mem_entries [Std.TransCmp cmp] {map : SortedMap κ ν cmp} {key : κ} {value : ν}
    (member : (key, value) ∈ map.entries) : map.get? key = some value := by
  obtain ⟨entries, ascending⟩ := map
  simp only [get?] at member ⊢
  have self : cmp key key = .eq := Std.ReflCmp.compare_self
  induction entries with
  | nil => simp at member
  | cons entry rest ih =>
    obtain ⟨before, tail⟩ := List.pairwise_cons.mp ascending
    rcases List.mem_cons.mp member with first | later
    · simp [← first, self]
    · have smaller := Std.OrientedCmp.gt_of_lt (before (key, value) later)
      simpa [List.find?_cons, smaller] using ih tail later

theorem mem_entries_iff [Std.TransCmp cmp] [Std.LawfulEqCmp cmp] {map : SortedMap κ ν cmp}
    {key : κ} {value : ν} : (key, value) ∈ map.entries ↔ map.get? key = some value := by
  constructor
  · exact get?_of_mem_entries
  · intro found
    simp only [get?, Option.map_eq_some_iff] at found
    obtain ⟨entry, hit, rfl⟩ := found
    have same : cmp key entry.1 = .eq := by simpa using List.find?_some hit
    rw [Std.LawfulEqCmp.eq_of_compare same]
    exact List.mem_of_find?_eq_some hit

theorem insertAll_entries [Std.TransCmp cmp] (map : SortedMap κ Unit cmp) (keys : List κ)
    (ascending : (map.keys ++ keys).Pairwise fun first later => cmp first later = .lt) :
    (keys.foldl (fun map key => map.insert key ()) map).entries =
      map.entries ++ keys.map fun key => (key, ()) := by
  induction keys generalizing map with
  | nil => simp
  | cons key rest ih =>
    have after : ∀ entry ∈ map.entries, cmp key entry.1 = .gt := by
      intro entry member
      have before := (List.pairwise_append.mp ascending).2.2 entry.1
        (List.mem_map_of_mem member) key (by simp)
      exact Std.OrientedCmp.gt_of_lt before
    have placed : (map.insert key ()).entries = map.entries ++ [(key, ())] :=
      insertEntry_last () after
    have keys_placed : (map.insert key ()).keys = map.keys ++ [key] := by
      simp [keys, placed]
    rw [List.foldl_cons, ih _ (by simpa [keys_placed] using ascending), placed]
    simp

theorem keys_ascending (map : SortedMap κ ν cmp) :
    map.keys.Pairwise fun first later => cmp first later = .lt :=
  List.pairwise_map.mpr map.ascending

@[simp] theorem ofKeys_keys [Std.TransCmp cmp] (set : SortedMap κ Unit cmp) :
    ofKeys set.keys = set := by
  have entries := insertAll_entries (empty : SortedMap κ Unit cmp) set.keys set.keys_ascending
  have unpaired : ((fun key => (key, ())) ∘ Prod.fst : κ × Unit → κ × Unit) = id := rfl
  apply entries_inj
  rw [ofKeys, entries, keys, List.map_map, unpaired, List.map_id]
  rfl

theorem get?_insert [Std.TransCmp cmp] [Std.LawfulEqCmp cmp] [DecidableEq κ]
    (map : SortedMap κ ν cmp) (key other : κ) (value : ν) :
    (map.insert key value).get? other = if other = key then some value else map.get? other := by
  split
  · rename_i same
    rw [same, get?_insert_same]
  · rename_i apart
    exact get?_insert_other map value fun equal => apart (Std.LawfulEqCmp.eq_of_compare equal)

theorem mem_keys_iff [Std.TransCmp cmp] [Std.LawfulEqCmp cmp] {map : SortedMap κ ν cmp} {key : κ} :
    key ∈ map.keys ↔ ∃ value, map.get? key = some value := by
  simp only [keys, List.mem_map, ← mem_entries_iff]
  constructor
  · rintro ⟨entry, member, rfl⟩
    exact ⟨entry.2, member⟩
  · rintro ⟨value, member⟩
    exact ⟨(key, value), member, rfl⟩

theorem get?_insert_eq_some [Std.TransCmp cmp] [Std.LawfulEqCmp cmp] {map : SortedMap κ ν cmp}
    {key other : κ} {value found : ν} (hit : (map.insert key value).get? other = some found) :
    other = key ∧ found = value ∨ map.get? other = some found := by
  classical
  rw [get?_insert] at hit
  split at hit
  · rename_i same
    cases hit
    exact Or.inl ⟨same, rfl⟩
  · exact Or.inr hit

theorem mem_keys_insert [Std.TransCmp cmp] {map : SortedMap κ ν cmp} {key added : κ} {value : ν}
    (member : key ∈ (map.insert added value).keys) : key = added ∨ key ∈ map.keys := by
  obtain ⟨entry, at_entries, rfl⟩ := List.mem_map.mp member
  rcases mem_insertEntry at_entries with first | old
  · exact Or.inl (congrArg Prod.fst first)
  · exact Or.inr (List.mem_map_of_mem old)

theorem mem_keys_insertAll [Std.TransCmp cmp] {map : SortedMap κ Unit cmp} {keys : List κ}
    {key : κ} (member : key ∈ (keys.foldl (fun map key => map.insert key ()) map).keys) :
    key ∈ map.keys ∨ key ∈ keys := by
  induction keys generalizing map with
  | nil => exact Or.inl member
  | cons first rest ih =>
    rcases ih member with old | later
    · rcases mem_keys_insert old with same | older
      · exact Or.inr (by simp [same])
      · exact Or.inl older
    · exact Or.inr (List.mem_cons_of_mem first later)

theorem mem_of_mem_ofKeys [Std.TransCmp cmp] {keys : List κ} {key : κ}
    (member : key ∈ (ofKeys keys : SortedMap κ Unit cmp).keys) : key ∈ keys :=
  (mem_keys_insertAll member).resolve_left List.not_mem_nil

@[simp] theorem mem_keys_insert_iff [Std.TransCmp cmp] [Std.LawfulEqCmp cmp]
    {map : SortedMap κ ν cmp}
    {key added : κ} {value : ν} :
    key ∈ (map.insert added value).keys ↔ key = added ∨ key ∈ map.keys := by
  refine ⟨mem_keys_insert, ?_⟩
  classical
  simp only [mem_keys_iff, get?_insert]
  rintro (rfl | ⟨found, hit⟩)
  · exact ⟨value, if_pos rfl⟩
  · split
    · exact ⟨value, rfl⟩
    · exact ⟨found, hit⟩

theorem mem_keys_insertAll_iff [Std.TransCmp cmp] [Std.LawfulEqCmp cmp] {map : SortedMap κ Unit cmp}
    {keys : List κ} {key : κ} :
    key ∈ (keys.foldl (fun map key => map.insert key ()) map).keys ↔
      key ∈ map.keys ∨ key ∈ keys := by
  induction keys generalizing map with
  | nil => simp
  | cons first rest ih =>
    rw [List.foldl_cons, ih, mem_keys_insert_iff, List.mem_cons, or_assoc, or_left_comm]

@[simp] theorem mem_keys_ofKeys [Std.TransCmp cmp] [Std.LawfulEqCmp cmp] {keys : List κ} {key : κ} :
    key ∈ (ofKeys keys : SortedMap κ Unit cmp).keys ↔ key ∈ keys :=
  mem_keys_insertAll_iff.trans (or_iff_right List.not_mem_nil)

theorem keys_nodup [Std.TransCmp cmp] (map : SortedMap κ ν cmp) : map.keys.Nodup := by
  refine map.keys_ascending.imp fun {first later} less same => ?_
  have self : cmp later later = .eq := Std.ReflCmp.compare_self
  rw [same, self] at less
  cases less

theorem eq_of_mem_keys [Std.TransCmp cmp] {left right : SortedMap κ Unit cmp}
    (same : ∀ key, key ∈ left.keys ↔ key ∈ right.keys) : left = right := by
  have perm : left.keys.Perm right.keys :=
    (List.perm_ext_iff_of_nodup left.keys_nodup right.keys_nodup).mpr same
  have keys : left.keys = right.keys := by
    refine perm.eq_of_pairwise ?_ left.keys_ascending right.keys_ascending
    intro first later _ _ less more
    rw [Std.OrientedCmp.gt_of_lt less] at more
    cases more
  rw [← ofKeys_keys left, keys, ofKeys_keys right]

end SortedMap
end EntityCatalog
