import EntityCatalog.Proofs.Graph.Rebuild
import Mathlib.Logic.Relation

/- The walk and reachability. A walk visits what can be reached from its starts and nothing else. So
   the positions visited from the roots are those that some root leads to, and they come before all
   others in the order of the walk. -/
namespace EntityCatalog
open Relation (ReflTransGen)

variable {N : Type}

namespace Graph

def Leads (g : Graph N) (source target : Nat) : Prop := target ∈ g.targetsAt source

/-- Whatever leads out of the positions leads to one of them, or to one on the stack. -/
def ClosedUpTo (g : Graph N) (visited stack : List Nat) : Prop :=
  ∀ source ∈ visited, ∀ target, g.Leads source target → target ∈ visited ∨ target ∈ stack

theorem visit_reached {g : Graph N} {visited stack : List Nat} {i : Nat}
    (member : i ∈ g.visit visited stack) :
    i ∈ visited ∨ ∃ start ∈ stack, ReflTransGen g.Leads start i := by
  fun_induction visit g visited stack with
  | case1 visited => exact Or.inl member
  | case2 visited current stack seen ih =>
    rcases ih member with old | ⟨start, waiting, path⟩
    · exact Or.inl old
    · exact Or.inr ⟨start, List.mem_cons_of_mem current waiting, path⟩
  | case3 visited current stack unseen inside ih =>
    rcases ih member with old | ⟨start, waiting, path⟩
    · rcases List.mem_cons.mp old with same | older
      · exact Or.inr ⟨current, by simp, by rw [same]⟩
      · exact Or.inl older
    · rcases List.mem_append.mp waiting with next | later
      · have edge : g.Leads current start := by
          rw [Leads, targetsAt_eq (List.getElem?_eq_getElem inside)]
          exact List.mem_reverse.mp next
        exact Or.inr ⟨current, by simp, .head edge path⟩
      · exact Or.inr ⟨start, List.mem_cons_of_mem current later, path⟩
  | case4 visited current stack unseen outside ih =>
    rcases ih member with old | ⟨start, waiting, path⟩
    · exact Or.inl old
    · exact Or.inr ⟨start, List.mem_cons_of_mem current waiting, path⟩

theorem ClosedUpTo.pop {g : Graph N} {visited stack : List Nat} {current : Nat}
    (closed : g.ClosedUpTo visited (current :: stack))
    (settled : ∀ source ∈ visited, g.Leads source current → current ∈ visited) :
    g.ClosedUpTo visited stack := by
  intro source member target edge
  rcases closed source member target edge with old | waiting
  · exact Or.inl old
  · rcases List.mem_cons.mp waiting with rfl | later
    · exact Or.inl (settled source member edge)
    · exact Or.inr later

theorem visit_closed {g : Graph N} {visited stack : List Nat}
    (closed : g.ClosedUpTo visited stack) : g.ClosedUpTo (g.visit visited stack) [] := by
  -- Once the stack is empty nothing leads out of what is visited.
  fun_induction visit g visited stack with
  | case1 visited => exact closed
  | case2 visited current stack seen ih =>
    exact ih (closed.pop fun _ _ _ => by simpa using seen)
  | case3 visited current stack unseen inside ih =>
    apply ih
    intro source member target edge
    rcases List.mem_cons.mp member with here | old
    · rw [here, Leads, targetsAt_eq (List.getElem?_eq_getElem inside)] at edge
      exact Or.inr (List.mem_append_left _ (List.mem_reverse.mpr edge))
    · rcases closed source old target edge with older | waiting
      · exact Or.inl (List.mem_cons_of_mem current older)
      · rcases List.mem_cons.mp waiting with next | later
        · exact Or.inl (by simp [next])
        · exact Or.inr (List.mem_append_right _ later)
  | case4 visited current stack unseen outside ih =>
    exact ih (closed.pop fun _ _ edge => absurd (lt_of_mem_targetsAt edge).2 outside)

/-- The visited positions are kept last first, so what is visited later stands before. -/
theorem visit_suffix (g : Graph N) (visited stack : List Nat) :
    visited <:+ g.visit visited stack := by
  fun_induction visit g visited stack with
  | case1 visited => exact List.suffix_refl visited
  | case2 visited current stack seen ih => exact ih
  | case3 visited current stack unseen inside ih =>
    exact (List.suffix_cons current visited).trans ih
  | case4 visited current stack unseen outside ih => exact ih

theorem visits_reached {g : Graph N} {starts visited : List Nat} {i : Nat}
    (member : i ∈ g.visits starts visited) :
    i ∈ visited ∨ ∃ start ∈ starts, ReflTransGen g.Leads start i := by
  induction starts generalizing visited with
  | nil => exact Or.inl member
  | cons start rest ih =>
    rcases ih member with old | ⟨later, waiting, path⟩
    · rcases visit_reached old with older | ⟨first, here, path⟩
      · exact Or.inl older
      · rw [List.mem_singleton.mp here] at path
        exact Or.inr ⟨start, by simp, path⟩
    · exact Or.inr ⟨later, List.mem_cons_of_mem start waiting, path⟩

theorem visits_closed {g : Graph N} {visited : List Nat} (starts : List Nat)
    (closed : g.ClosedUpTo visited []) : g.ClosedUpTo (g.visits starts visited) [] := by
  induction starts generalizing visited with
  | nil => exact closed
  | cons start rest ih =>
    refine ih (visit_closed fun source member target edge => ?_)
    exact (closed source member target edge).imp_right fun none => absurd none List.not_mem_nil

theorem visits_suffix (g : Graph N) (starts visited : List Nat) :
    visited <:+ g.visits starts visited := by
  induction starts generalizing visited with
  | nil => exact List.suffix_refl visited
  | cons start rest ih => exact (g.visit_suffix visited [start]).trans (ih _)

theorem lt_of_mem_rootPositions {g : Graph N} {i : Nat} (root : i ∈ g.rootPositions) :
    i < g.nodeCount := List.mem_range.mp (List.mem_filter.mp root).1

/-- Some root leads to the position, perhaps because it is a root itself. -/
def Rooted (g : Graph N) (i : Nat) : Prop :=
  ∃ root ∈ g.rootPositions, ReflTransGen g.Leads root i

/-- The walks from the roots visit exactly what the roots lead to. -/
theorem mem_visits_roots {g : Graph N} {i : Nat} :
    i ∈ g.visits g.rootPositions [] ↔ g.Rooted i := by
  constructor
  · intro member
    exact (visits_reached member).resolve_left List.not_mem_nil
  · rintro ⟨root, at_roots, path⟩
    have closed : g.ClosedUpTo (g.visits g.rootPositions []) [] :=
      visits_closed _ fun _ none => absurd none List.not_mem_nil
    induction path with
    | refl => exact mem_visits (Or.inr ⟨at_roots, lt_of_mem_rootPositions at_roots⟩)
    | tail path edge ih => exact (closed _ ih _ edge).resolve_right List.not_mem_nil

theorem visitOrder_roots_first (g : Graph N) :
    ∃ first rest, g.visitOrder = first ++ rest ∧ (∀ i ∈ first, g.Rooted i) ∧
      ∀ i ∈ rest, ¬ g.Rooted i := by
  obtain ⟨rest, joined⟩ :=
    g.visits_suffix (List.range g.vertices.length) (g.visits g.rootPositions [])
  have order : g.visitOrder = (g.visits g.rootPositions []).reverse ++ rest.reverse := by
    rw [← List.reverse_append, joined, visits, visits, ← List.foldl_append]
    rfl
  refine ⟨_, _, order, ?_, ?_⟩
  · intro i member
    exact mem_visits_roots.mp (List.mem_reverse.mp member)
  · intro i member rooted
    have distinct := g.visitOrder_nodup
    rw [order] at distinct
    have apart := (List.nodup_append.mp distinct).2.2
    exact apart i (List.mem_reverse.mpr (mem_visits_roots.mpr rooted)) i member rfl

theorem source_of_mem_edges {g : Graph N} {positions : List Nat} {edge : Nat × Nat}
    (member : edge ∈ positions.flatMap g.edgesFrom) : edge.1 ∈ positions := by
  obtain ⟨source, at_source, here⟩ := List.mem_flatMap.mp member
  obtain ⟨target, -, rfl⟩ := List.mem_map.mp here
  exact at_source

/-- The edges from what some root leads to are listed before all others. -/
theorem edgeIndices_roots_first (g : Graph N) :
    ∃ first rest, g.edgeIndices = first ++ rest ∧ (∀ edge ∈ first, g.Rooted edge.1) ∧
      ∀ edge ∈ rest, ¬ g.Rooted edge.1 := by
  obtain ⟨first, rest, order, rooted, unrooted⟩ := g.visitOrder_roots_first
  refine ⟨first.flatMap g.edgesFrom, rest.flatMap g.edgesFrom, ?_, ?_, ?_⟩
  · rw [edgeIndices, order, List.flatMap_append]
  · exact fun edge member => rooted edge.1 (source_of_mem_edges member)
  · exact fun edge member => unrooted edge.1 (source_of_mem_edges member)

theorem edgeIndices_grouped (g : Graph N) (source : Nat) :
    ∃ before later, g.edgeIndices = before ++ g.edgesFrom source ++ later ∧
      ∀ edge ∈ before ++ later, edge.1 ≠ source := by
  by_cases inside : source < g.nodeCount
  · obtain ⟨before, later, order⟩ := List.append_of_mem (mem_visitOrder inside)
    have distinct := g.visitOrder_nodup
    rw [order] at distinct
    obtain ⟨absent, -⟩ := List.nodup_cons.mp (List.perm_middle.nodup_iff.mp distinct)
    refine ⟨before.flatMap g.edgesFrom, later.flatMap g.edgesFrom, ?_, ?_⟩
    · rw [edgeIndices, order, List.flatMap_append, List.flatMap_cons, List.append_assoc]
    · intro edge member same
      rw [← List.flatMap_append] at member
      exact absent (same ▸ source_of_mem_edges member)
  · have none : g.edgesFrom source = [] := by
      rw [edgesFrom_eq, targetsAt, List.getElem?_eq_none (Nat.le_of_not_lt inside)]
      rfl
    refine ⟨g.edgeIndices, [], by rw [none, List.append_nil, List.append_nil], ?_⟩
    intro edge member same
    rw [List.append_nil] at member
    exact inside (same ▸ (lt_of_mem_edgeIndices member).1)

end Graph
end EntityCatalog
