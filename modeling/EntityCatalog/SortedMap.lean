/- Finite maps listed in strictly ascending order of their keys. The list is part of the type, so
   two maps with the same entries are equal. The order may be taken over from a part of the keys. -/
namespace EntityCatalog

section
variable {α β : Type}

def orderOn (cmp : β → β → Ordering) (part : α → β) (left right : α) : Ordering :=
  cmp (part left) (part right)

theorem orderOn_swap (cmp : β → β → Ordering) (part : α → β) [Std.TransCmp cmp] (left right : α) :
    orderOn cmp part left right = (orderOn cmp part right left).swap := by
  unfold orderOn
  exact Std.OrientedCmp.eq_swap

theorem orderOn_trans (cmp : β → β → Ordering) (part : α → β) [Std.TransCmp cmp]
    {left middle right : α} (first : (orderOn cmp part left middle).isLE)
    (second : (orderOn cmp part middle right).isLE) :
    (orderOn cmp part left right).isLE := by
  unfold orderOn at *
  exact Std.TransCmp.isLE_trans first second

instance (cmp : β → β → Ordering) (part : α → β) [Std.TransCmp cmp] :
    Std.TransCmp (orderOn cmp part) where
  eq_swap := orderOn_swap cmp part _ _
  isLE_trans := orderOn_trans cmp part

end

section
variable {κ ν : Type} {cmp : κ → κ → Ordering}

structure SortedMap (κ ν : Type) (cmp : κ → κ → Ordering) where
  entries : List (κ × ν)
  ascending : entries.Pairwise fun first later => cmp first.1 later.1 = .lt
  deriving DecidableEq

def SortedMap.empty : SortedMap κ ν cmp := ⟨[], .nil⟩

def insertEntry (cmp : κ → κ → Ordering) (key : κ) (value : ν) : List (κ × ν) → List (κ × ν)
  | [] => [(key, value)]
  | entry :: rest =>
      match cmp key entry.1 with
      | .lt => (key, value) :: entry :: rest
      | .eq => (key, value) :: rest
      | .gt => entry :: insertEntry cmp key value rest

@[simp] theorem insertEntry_nil (key : κ) (value : ν) :
    insertEntry cmp key value [] = [(key, value)] := rfl

@[simp] theorem insertEntry_lt {key : κ} {entry : κ × ν} (less : cmp key entry.1 = .lt)
    (value : ν) (rest : List (κ × ν)) :
    insertEntry cmp key value (entry :: rest) = (key, value) :: entry :: rest := by
  rw [insertEntry, less]

@[simp] theorem insertEntry_eq {key : κ} {entry : κ × ν} (same : cmp key entry.1 = .eq)
    (value : ν) (rest : List (κ × ν)) :
    insertEntry cmp key value (entry :: rest) = (key, value) :: rest := by
  rw [insertEntry, same]

@[simp] theorem insertEntry_gt {key : κ} {entry : κ × ν} (greater : cmp key entry.1 = .gt)
    (value : ν) (rest : List (κ × ν)) :
    insertEntry cmp key value (entry :: rest) = entry :: insertEntry cmp key value rest := by
  rw [insertEntry, greater]

theorem mem_insertEntry {key : κ} {value : ν} {entries : List (κ × ν)} {found : κ × ν}
    (member : found ∈ insertEntry cmp key value entries) :
    found = (key, value) ∨ found ∈ entries := by
  induction entries with
  | nil => simpa using member
  | cons entry rest ih =>
    cases order : cmp key entry.1 with
    | lt => simpa [order] using member
    | eq =>
      simp only [insertEntry_eq order, List.mem_cons] at member ⊢
      exact member.elim Or.inl (fun later => Or.inr (Or.inr later))
    | gt =>
      simp only [insertEntry_gt order, List.mem_cons] at member ⊢
      rcases member with first | later
      · exact Or.inr (Or.inl first)
      · exact (ih later).elim Or.inl (fun old => Or.inr (Or.inr old))

theorem insertEntry_ascending [Std.TransCmp cmp] (key : κ) (value : ν) {entries : List (κ × ν)}
    (ascending : entries.Pairwise fun first later => cmp first.1 later.1 = .lt) :
    (insertEntry cmp key value entries).Pairwise
      fun first later => cmp first.1 later.1 = .lt := by
  induction entries with
  | nil => simp
  | cons entry rest ih =>
    obtain ⟨before, tail⟩ := List.pairwise_cons.mp ascending
    cases order : cmp key entry.1 with
    | lt =>
      rw [insertEntry_lt order]
      refine List.pairwise_cons.mpr ⟨?_, ascending⟩
      intro later member
      rcases List.mem_cons.mp member with first | after
      · simpa [first] using order
      · exact Std.TransCmp.lt_trans order (before later after)
    | eq =>
      rw [insertEntry_eq order]
      refine List.pairwise_cons.mpr ⟨?_, tail⟩
      intro later member
      exact Std.TransCmp.lt_of_eq_of_lt order (before later member)
    | gt =>
      rw [insertEntry_gt order]
      refine List.pairwise_cons.mpr ⟨?_, ih tail⟩
      intro later member
      rcases mem_insertEntry member with added | old
      · rw [added]
        exact Std.OrientedCmp.lt_of_gt order
      · exact before later old

namespace SortedMap

def insert [Std.TransCmp cmp] (map : SortedMap κ ν cmp) (key : κ) (value : ν) :
    SortedMap κ ν cmp :=
  ⟨insertEntry cmp key value map.entries, insertEntry_ascending key value map.ascending⟩

def get? (map : SortedMap κ ν cmp) (key : κ) : Option ν :=
  (map.entries.find? fun entry => cmp key entry.1 == .eq).map Prod.snd

def contains (map : SortedMap κ ν cmp) (key : κ) : Bool :=
  map.entries.any fun entry => cmp key entry.1 == .eq

def erase (map : SortedMap κ ν cmp) (key : κ) : SortedMap κ ν cmp :=
  ⟨map.entries.filter fun entry => cmp key entry.1 != .eq, map.ascending.filter _⟩

def size (map : SortedMap κ ν cmp) : Nat := map.entries.length

def keys (map : SortedMap κ ν cmp) : List κ := map.entries.map Prod.fst

def values (map : SortedMap κ ν cmp) : List ν := map.entries.map Prod.snd

def totalOf (weight : ν → Nat) (map : SortedMap κ ν cmp) : Nat :=
  map.entries.foldl (fun total entry => total + weight entry.2) 0

def ofKeys [Std.TransCmp cmp] (keys : List κ) : SortedMap κ Unit cmp :=
  keys.foldl (fun map key => map.insert key ()) empty

end SortedMap

end

end EntityCatalog
