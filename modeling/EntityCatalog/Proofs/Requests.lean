import EntityCatalog.Catalog
import Mathlib.Data.List.Forall2

/- Request lists. A list is read as the trimmed texts between its commas, each where it first
   stands, and a list of such texts is read back from the texts joined by commas. -/
namespace EntityCatalog
open List (Forall₂)

structure Segments (raw : List Char) (segments : List (List Char)) : Prop where
  some_segment : segments ≠ []
  joined : [','].intercalate segments = raw
  no_comma : ∀ segment ∈ segments, ',' ∉ segment

structure Bare (chars : List Char) : Prop where
  head : ∀ c, chars.head? = some c → isBlank c = false
  last : ∀ c, chars.getLast? = some c → isBlank c = false

theorem bare_iff {chars : List Char} :
    (chars.head?.any isBlank = false ∧ chars.getLast?.any isBlank = false) ↔ Bare chars := by
  rw [Option.any_eq_false, Option.any_eq_false]
  exact ⟨fun both => ⟨both.1, both.2⟩, fun bare => ⟨bare.head, bare.last⟩⟩

instance (chars : List Char) : Decidable (Bare chars) := decidable_of_iff _ bare_iff

structure Trims (segment core : List Char) : Prop where
  bare : Bare core
  around : ∃ before after, segment = before ++ (core ++ after) ∧
    (∀ c ∈ before, isBlank c = true) ∧ ∀ c ∈ after, isBlank c = true

structure FirstOccurrences {α : Type} [BEq α] (all kept : List α) : Prop where
  members : ∀ item, item ∈ kept ↔ item ∈ all
  ordered : kept.Pairwise fun first later => all.idxOf first < all.idxOf later

structure Normalised (texts : List String) : Prop where
  distinct : texts.Nodup
  not_empty : ∀ text ∈ texts, text ≠ ""
  no_comma : ∀ text ∈ texts, ',' ∉ text.toList
  bare : ∀ text ∈ texts, Bare text.toList

theorem no_comma_in_segment {raw segment : List Char} (member : segment ∈ raw.splitOn ',') :
    ',' ∉ segment := by
  induction raw generalizing segment with
  | nil =>
    rw [List.splitOn_nil, List.mem_singleton] at member
    rw [member]
    exact List.not_mem_nil
  | cons c rest ih =>
    rw [List.splitOn_cons_eq_if_modifyHead] at member
    obtain ⟨first, others, split⟩ := List.exists_cons_of_ne_nil (List.splitOn_ne_nil ',' rest)
    rw [split] at ih member
    split at member
    · rcases List.mem_cons.mp member with here | later
      · rw [here]
        exact List.not_mem_nil
      · exact ih later
    · rename_i other
      rcases List.mem_cons.mp member with here | later
      · rw [here, List.mem_cons]
        rintro (same | inside)
        · exact other (beq_iff_eq.mpr same.symm)
        · exact ih (by simp) inside
      · exact ih (by simp [later])

theorem segments_iff {raw : List Char} {segments : List (List Char)} :
    Segments raw segments ↔ raw.splitOn ',' = segments := by
  constructor
  · intro parts
    rw [← parts.joined, List.splitOn_intercalate ',' parts.no_comma parts.some_segment]
  · rintro rfl
    exact ⟨List.splitOn_ne_nil ',' raw, List.intercalate_splitOn ',',
      fun segment => no_comma_in_segment⟩

theorem dropWhile_blanks {before chars : List Char} (blank : ∀ c ∈ before, isBlank c = true)
    (head : ∀ c, chars.head? = some c → isBlank c = false) :
    (before ++ chars).dropWhile isBlank = chars := by
  rw [List.dropWhile_append_of_pos blank]
  cases chars with
  | nil => rfl
  | cons c rest => exact List.dropWhile_cons_of_neg (by simp [head c rfl])

theorem head_dropWhile_blank (chars : List Char) :
    ∀ c, (chars.dropWhile isBlank).head? = some c → isBlank c = false := by
  intro c found
  have first := List.head?_dropWhile_not isBlank chars
  rwa [found] at first

theorem trims_trimBlank (segment : List Char) : Trims segment (trimBlank segment) := by
  have front := List.takeWhile_append_dropWhile (p := isBlank) (l := segment)
  have back := List.takeWhile_append_dropWhile (p := isBlank)
    (l := (segment.dropWhile isBlank).reverse)
  have turned := congrArg List.reverse back
  rw [List.reverse_append, List.reverse_reverse] at turned
  change trimBlank segment ++ _ = _ at turned
  constructor
  · constructor
    · intro c found
      apply head_dropWhile_blank segment c
      rw [← turned, List.head?_append, found]
      rfl
    · intro c found
      rw [trimBlank, List.getLast?_reverse] at found
      exact head_dropWhile_blank _ c found
  · refine ⟨_, _, by rw [turned, front], List.all_eq_true.mp List.all_takeWhile, fun c member => ?_⟩
    exact List.all_eq_true.mp List.all_takeWhile c (List.mem_reverse.mp member)

theorem trims_iff {segment core : List Char} : Trims segment core ↔ trimBlank segment = core := by
  refine ⟨fun trims => ?_, fun same => same ▸ trims_trimBlank segment⟩
  obtain ⟨bare, before, after, rfl, blank_before, blank_after⟩ := trims
  unfold trimBlank
  cases core with
  | nil =>
    have blank : ∀ c ∈ before ++ after, isBlank c = true := fun c member =>
      (List.mem_append.mp member).elim (blank_before c) (blank_after c)
    have nothing := @dropWhile_blanks _ [] blank (by simp)
    rw [List.append_nil] at nothing
    rw [List.nil_append, nothing]
    rfl
  | cons first rest =>
    have blank : ∀ c ∈ after.reverse, isBlank c = true := fun c member =>
      blank_after c (List.mem_reverse.mp member)
    have head : ∀ c, (first :: rest ++ after).head? = some c → isBlank c = false := bare.head
    rw [dropWhile_blanks blank_before head, List.reverse_append,
      dropWhile_blanks blank fun c found => bare.last c (by rwa [← List.head?_reverse]),
      List.reverse_reverse]

namespace FirstOccurrences
variable {α : Type} [BEq α] {all kept other : List α}

theorem nodup (occurrences : FirstOccurrences all kept) : kept.Nodup :=
  occurrences.ordered.imp fun less => ne_of_apply_ne all.idxOf (Nat.ne_of_lt less)

theorem unique (occurrences : FirstOccurrences all kept)
    (other_occurrences : FirstOccurrences all other) : kept = other := by
  have same : kept.Perm other := by
    rw [List.perm_ext_iff_of_nodup occurrences.nodup other_occurrences.nodup]
    exact fun item => (occurrences.members item).trans (other_occurrences.members item).symm
  refine same.eq_of_pairwise ?_ occurrences.ordered other_occurrences.ordered
  intro first later _ _ less more
  exact absurd more (Nat.lt_asymm less)

theorem of_nodup [LawfulBEq α] (nodup : all.Nodup) : FirstOccurrences all all := by
  refine ⟨fun item => Iff.rfl, List.pairwise_iff_getElem.mpr ?_⟩
  intro i j i_lt j_lt less
  rwa [nodup.idxOf_getElem, nodup.idxOf_getElem]

end FirstOccurrences

theorem appendNew_occurrences {seen kept : List String} (text : String)
    (occurrences : FirstOccurrences seen kept) :
    FirstOccurrences (seen ++ [text]) (appendNew kept text) := by
  have place {item : String} (member : item ∈ kept) :
      (seen ++ [text]).idxOf item = seen.idxOf item :=
    List.idxOf_append_of_mem ((occurrences.members item).mp member)
  have ordered : kept.Pairwise fun first later =>
      (seen ++ [text]).idxOf first < (seen ++ [text]).idxOf later := by
    refine occurrences.ordered.imp_of_mem fun first_member later_member less => ?_
    rwa [place first_member, place later_member]
  unfold appendNew
  split
  · rename_i known
    refine ⟨fun item => ?_, ordered⟩
    rw [List.mem_append, List.mem_singleton, ← occurrences.members item]
    exact ⟨Or.inl, fun either => either.elim id fun same => same ▸ List.contains_iff_mem.mp known⟩
  · rename_i unknown
    have new : text ∉ seen := fun member =>
      unknown (List.contains_iff_mem.mpr ((occurrences.members text).mpr member))
    constructor
    · intro item
      rw [List.mem_append, List.mem_append, occurrences.members item]
    · refine List.pairwise_append.mpr ⟨ordered, List.pairwise_singleton _ _, ?_⟩
      intro first member last here
      rw [List.mem_singleton.mp here, place member, List.idxOf_append_of_notMem new]
      have inside := List.idxOf_lt_length_iff.mpr ((occurrences.members first).mp member)
      omega

theorem appendAll_occurrences {seen kept : List String} (texts : List String)
    (occurrences : FirstOccurrences seen kept) :
    FirstOccurrences (seen ++ texts) (texts.foldl appendNew kept) := by
  induction texts generalizing seen kept with
  | nil => rwa [List.append_nil]
  | cons text rest ih =>
    have onward := ih (appendNew_occurrences text occurrences)
    rwa [List.append_assoc] at onward

def namedTexts (cores : List (List Char)) : List String :=
  (cores.filter (· ≠ [])).map String.ofList

theorem forall₂_trims {segments cores : List (List Char)} :
    Forall₂ Trims segments cores ↔ segments.map trimBlank = cores := by
  constructor
  · intro trimmed
    induction trimmed with
    | nil => rfl
    | cons here others ih => rw [List.map_cons, trims_iff.mp here, ih]
  · rintro rfl
    rw [List.forall₂_map_right_iff, List.forall₂_same]
    exact fun segment _ => trims_trimBlank segment

theorem splitRequest_occurrences (raw : String) :
    FirstOccurrences (namedTexts ((raw.toList.splitOn ',').map trimBlank)) (splitRequest raw) :=
  appendAll_occurrences _ (FirstOccurrences.of_nodup List.nodup_nil)

/-- A request list is what its segments say, and they say only one thing. -/
theorem splitRequest_eq_iff {raw : String} {texts : List String} :
    splitRequest raw = texts ↔
      ∃ segments cores, Segments raw.toList segments ∧ Forall₂ Trims segments cores ∧
        FirstOccurrences (namedTexts cores) texts := by
  constructor
  · rintro rfl
    exact ⟨_, _, segments_iff.mpr rfl, forall₂_trims.mpr rfl, splitRequest_occurrences raw⟩
  · rintro ⟨segments, cores, split, trimmed, occurrences⟩
    rw [segments_iff] at split
    rw [forall₂_trims] at trimmed
    subst split trimmed
    exact (splitRequest_occurrences raw).unique occurrences

theorem segment_of_mem {raw text : String} (member : text ∈ splitRequest raw) :
    ∃ segment, ',' ∉ segment ∧ Trims segment text.toList ∧ text ≠ "" := by
  have named := ((splitRequest_occurrences raw).members text).mp member
  simp only [namedTexts, List.mem_map, List.mem_filter, decide_eq_true_eq] at named
  obtain ⟨core, ⟨⟨segment, inside, rfl⟩, some_char⟩, rfl⟩ := named
  refine ⟨segment, no_comma_in_segment inside, ?_, fun empty => some_char ?_⟩
  · rw [String.toList_ofList]
    exact trims_trimBlank segment
  · rw [← String.toList_ofList (l := trimBlank segment), empty]
    rfl

theorem splitRequest_normalised (raw : String) : Normalised (splitRequest raw) := by
  refine ⟨(splitRequest_occurrences raw).nodup, ?_, ?_, ?_⟩
  · intro text member
    obtain ⟨segment, -, -, not_empty⟩ := segment_of_mem member
    exact not_empty
  · intro text member comma
    obtain ⟨segment, no_comma, trims, -⟩ := segment_of_mem member
    obtain ⟨before, after, split, -⟩ := trims.around
    exact no_comma (by simp [split, comma])
  · intro text member
    obtain ⟨segment, -, trims, -⟩ := segment_of_mem member
    exact trims.bare

theorem Bare.trims {chars : List Char} (bare : Bare chars) : Trims chars chars :=
  ⟨bare, [], [], by simp, by simp, by simp⟩

theorem namedTexts_toList {texts : List String} (not_empty : ∀ text ∈ texts, text ≠ "") :
    namedTexts (texts.map String.toList) = texts := by
  have kept : (texts.map String.toList).filter (· ≠ []) = texts.map String.toList := by
    refine List.filter_eq_self.mpr fun chars member => ?_
    obtain ⟨text, inside, rfl⟩ := List.mem_map.mp member
    rw [decide_eq_true_eq, ne_eq, String.toList_eq_nil_iff]
    exact not_empty text inside
  have unread : String.ofList ∘ String.toList = id := funext fun text => String.ofList_toList
  rw [namedTexts, kept, List.map_map, unread, List.map_id]

theorem splitRequest_joined {texts : List String} (normalised : Normalised texts) :
    splitRequest (",".intercalate texts) = texts := by
  cases texts with
  | nil => decide
  | cons first rest =>
    have joined : (",".intercalate (first :: rest)).toList =
        [','].intercalate ((first :: rest).map String.toList) := String.toList_intercalate
    refine splitRequest_eq_iff.mpr ⟨_, _, ⟨by simp, joined.symm, ?_⟩, List.forall₂_same.mpr ?_, ?_⟩
    · intro segment inside
      obtain ⟨text, member, rfl⟩ := List.mem_map.mp inside
      exact normalised.no_comma text member
    · intro segment inside
      obtain ⟨text, member, rfl⟩ := List.mem_map.mp inside
      exact (normalised.bare text member).trims
    · rw [namedTexts_toList normalised.not_empty]
      exact .of_nodup normalised.distinct

/-- A request list is read as the trimmed texts between its commas that are not empty, each where it
    first occurs. Such texts are read back when they are joined by commas, so that nothing changes
    when a list is read and joined and read once more. Ids and fields are read alike. -/
theorem request_lists_normalised :
    (∀ raw, Normalised (splitRequest raw) ∧
      (∀ texts, splitRequest raw = texts ↔
        ∃ segments cores, Segments raw.toList segments ∧ Forall₂ Trims segments cores ∧
          FirstOccurrences (namedTexts cores) texts) ∧
      splitRequest (",".intercalate (splitRequest raw)) = splitRequest raw ∧
      ListQuery.ofParameters (some raw) (some raw) = ⟨splitRequest raw, splitRequest raw⟩) ∧
    ∀ texts, Normalised texts → splitRequest (",".intercalate texts) = texts := by
  refine ⟨fun raw => ?_, fun texts => splitRequest_joined⟩
  have normalised := splitRequest_normalised raw
  exact ⟨normalised, fun texts => splitRequest_eq_iff, splitRequest_joined normalised, rfl⟩

theorem inner_blank_read_back :
    Normalised ["rate of flow", "id", "é"] ∧
      splitRequest "rate of flow,id,é" = ["rate of flow", "id", "é"] ∧
      splitRequest "\u2003rate of flow,id ,, id,é" = ["rate of flow", "id", "é"] := by
  have normalised : Normalised ["rate of flow", "id", "é"] :=
    ⟨by decide, by decide, by decide, by decide⟩
  refine ⟨normalised, request_lists_normalised.2 _ normalised, by decide⟩

end EntityCatalog
