import EntityCatalog.Decimal.Text
import EntityCatalog.Entity
import EntityCatalog.Proofs.Decimal.Comparison
import EntityCatalog.Proofs.SortedMap

/- The definitions of an element. An element depends on the names and numbers that are defined, and
   neither on their order nor on how often a definition is given; its definitions are listed by name
   and then by number, and the values of one name are all kept. -/
namespace EntityCatalog

theorem compare_bytes_eq_lt {left right : Bytes} : compare left right = .lt ↔ left < right := by
  induction left generalizing right with
  | nil =>
    cases right with
    | nil => simp
    | cons byte rest => simp
  | cons byte rest ih =>
    cases right with
    | nil => simp
    | cons other others =>
      rw [List.compare_cons_cons, Ordering.then_eq_lt, List.cons_lt_cons_iff, ih, Std.compare_eq_lt,
        Std.compare_eq_iff_eq]

namespace Name

theorem order_eq_lt {left right : Name} :
    left.order right = .lt ↔ utf8 left.text < utf8 right.text :=
  compare_bytes_eq_lt

theorem order_eq_eq {left right : Name} : left.order right = .eq ↔ left = right := by
  unfold order orderOn
  rw [byteOrder_eq_iff, Name.mk.injEq]

end Name

namespace Definition

def pair (definition : Definition) : Name × Rat := (definition.name, definition.value.value)

@[simp] theorem pair_inj {left right : Definition} : left.pair = right.pair ↔ left = right := by
  constructor
  · intro same
    obtain ⟨name, value⟩ := left
    obtain ⟨other, number⟩ := right
    obtain ⟨names, numbers⟩ := Prod.mk.inj same
    simp only at names numbers
    rw [names, Decimal.eq_of_value_eq numbers]
  · exact congrArg pair

/-- By the bytes of the names, and by the numbers where the names are the same. -/
def Precedes (first later : Name × Rat) : Prop :=
  utf8 first.1.text < utf8 later.1.text ∨ first.1 = later.1 ∧ first.2 < later.2

theorem order_by_digits :
    order = compareLex (orderOn Name.order Definition.name)
      (orderOn Decimal.compareTo Definition.value) := by
  rw [Decimal.compareTo_eq_order]
  rfl

theorem order_eq_lt {first later : Definition} :
    order first later = .lt ↔ Precedes first.pair later.pair := by
  rw [order_by_digits]
  change (first.name.order later.name).then (first.value.compareTo later.value) = .lt ↔ _
  rw [Ordering.then_eq_lt, Name.order_eq_lt, Name.order_eq_eq, Decimal.compareTo_eq_lt]
  rfl

theorem order_eq_eq {left right : Definition} : order left right = .eq ↔ left = right := by
  rw [order_by_digits, ← pair_inj]
  change (left.name.order right.name).then (left.value.compareTo right.value) = .eq ↔ _
  rw [Ordering.then_eq_eq, Name.order_eq_eq, Decimal.compareTo_eq_eq]
  exact (Prod.mk.injEq _ _ _ _).symm.to_iff

instance : Std.LawfulEqCmp order where
  eq_of_compare same := order_eq_eq.mp same

theorem mem_pairs {definitions : List Definition} {definition : Definition} :
    definition.pair ∈ definitions.map pair ↔ definition ∈ definitions := by
  rw [List.mem_map]
  constructor
  · rintro ⟨other, member, same⟩
    rwa [← pair_inj.mp same]
  · exact fun member => ⟨definition, member, rfl⟩

end Definition

namespace Element
open Definition (pair Precedes)

theorem mem_definitions {name : Name} {definitions : List Definition} {definition : Definition} :
    definition ∈ (of name definitions).definitions.keys ↔ definition ∈ definitions :=
  SortedMap.mem_keys_ofKeys

theorem mem_definition_pairs {name : Name} {definitions : List Definition} {found : Name × Rat} :
    found ∈ (of name definitions).definitions.keys.map pair ↔ found ∈ definitions.map pair := by
  simp only [List.mem_map, mem_definitions]

theorem definitions_ascending (element : Element) :
    (element.definitions.keys.map pair).Pairwise Precedes := by
  rw [List.pairwise_map]
  exact element.definitions.keys_ascending.imp Definition.order_eq_lt.mp

theorem definition_pairs_nodup (element : Element) :
    (element.definitions.keys.map pair).Nodup :=
  List.pairwise_map.mpr (element.definitions.keys_nodup.imp fun apart same =>
    apart (Definition.pair_inj.mp same))

theorem valuesOf_ascending (element : Element) (name : String) :
    (element.valuesOf name).Pairwise fun first later => first.value < later.value := by
  -- The values of one name are in order because the definitions are.
  have ascending := List.pairwise_map.mp element.definitions_ascending
  rw [valuesOf, List.pairwise_map, List.pairwise_filter]
  refine ascending.imp fun {first later} before named also_named => ?_
  rcases before with names | ⟨-, numbers⟩
  · have same : first.name.text = later.name.text :=
      (of_decide_eq_true named).trans (of_decide_eq_true also_named).symm
    rw [Definition.pair, Definition.pair, same] at names
    exact absurd names (List.lt_irrefl _)
  · exact numbers

theorem mem_valuesOf {name : Name} {definitions : List Definition} {key : String} {number : Rat} :
    number ∈ ((of name definitions).valuesOf key).map Decimal.value ↔
      (⟨key⟩, number) ∈ definitions.map pair := by
  simp only [valuesOf, List.mem_map, List.mem_filter, mem_definitions, decide_eq_true_eq]
  constructor
  · rintro ⟨value, ⟨definition, ⟨member, rfl⟩, rfl⟩, rfl⟩
    exact ⟨definition, member, rfl⟩
  · rintro ⟨definition, member, same⟩
    obtain ⟨names, numbers⟩ := Prod.mk.inj same
    exact ⟨definition.value, ⟨definition, ⟨member, by rw [names]⟩, rfl⟩, numbers⟩

theorem of_congr {name : Name} {left right : List Definition}
    (same : ∀ found, found ∈ left.map pair ↔ found ∈ right.map pair) :
    of name left = of name right := by
  have sets : (of name left).definitions = (of name right).definitions := by
    refine SortedMap.eq_of_mem_keys fun definition => ?_
    rw [mem_definitions, mem_definitions, ← Definition.mem_pairs, same, Definition.mem_pairs]
  exact congrArg (Element.mk name) sets

/-- An element is the same whichever way its definitions are listed and its numbers spelled. What is
    defined is listed once, by the bytes of the names and then by the numbers, and the values of a
    name are the numbers defined under it, in ascending order. -/
theorem definitions_settle_element :
    (∀ (name : Name) (left right : List Definition),
      (∀ found, found ∈ left.map pair ↔ found ∈ right.map pair) →
        of name left = of name right) ∧
    ∀ (name : Name) (definitions : List Definition),
      (((of name definitions).definitions.keys.map pair).Pairwise Precedes ∧
        ∀ found, ((of name definitions).definitions.keys.map pair).count found =
          if found ∈ definitions.map pair then 1 else 0) ∧
      ∀ key, (((of name definitions).valuesOf key).map Decimal.value).Pairwise (· < ·) ∧
        ∀ number, number ∈ ((of name definitions).valuesOf key).map Decimal.value ↔
          (⟨key⟩, number) ∈ definitions.map pair := by
  refine ⟨fun name left right => of_congr, fun name definitions => ⟨⟨?_, ?_⟩, fun key => ⟨?_, ?_⟩⟩⟩
  · exact definitions_ascending _
  · intro found
    simp only [(definition_pairs_nodup _).count, mem_definition_pairs]
  · exact List.pairwise_map.mpr (valuesOf_ascending _ key)
  · exact fun number => mem_valuesOf

def spelled (text : String) : Decimal := (Decimal.parse text).toOption.getD .zero

def spelledDefinitions : List Definition :=
  [⟨⟨"rate"⟩, spelled "2"⟩, ⟨⟨"flow"⟩, spelled "0.5"⟩, ⟨⟨"rate"⟩, spelled "-1"⟩,
    ⟨⟨"rate"⟩, spelled "2.00"⟩]

/-- The same definitions in another order, each once, with their numbers in another spelling. -/
def respelledDefinitions : List Definition :=
  [⟨⟨"rate"⟩, spelled "-10e-1"⟩, ⟨⟨"rate"⟩, spelled "+20E-1"⟩, ⟨⟨"flow"⟩, spelled "5e-1"⟩]

theorem respelled_definitions_settle :
    (∀ found, found ∈ spelledDefinitions.map pair ↔ found ∈ respelledDefinitions.map pair) ∧
      of ⟨"pump"⟩ spelledDefinitions = of ⟨"pump"⟩ respelledDefinitions := by
  have two : spelled "2.00" = spelled "2" ∧ spelled "+20E-1" = spelled "2" := by decide +kernel
  have half : spelled "5e-1" = spelled "0.5" := by decide +kernel
  have minus : spelled "-10e-1" = spelled "-1" := by decide +kernel
  have same : ∀ found,
      found ∈ spelledDefinitions.map pair ↔ found ∈ respelledDefinitions.map pair := by
    intro found
    simp only [spelledDefinitions, respelledDefinitions, two, half, minus, List.map_cons,
      List.map_nil, List.mem_cons, List.not_mem_nil, or_false]
    grind
  exact ⟨same, definitions_settle_element.1 ⟨"pump"⟩ _ _ same⟩

end Element
end EntityCatalog
