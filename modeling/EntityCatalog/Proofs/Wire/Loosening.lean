import EntityCatalog.Proofs.Wire.Locality

/- Stored forms under looser limits. A limit decides whether something is refused and never what is
   found or written, so an accepted input is read as the same document and an accepted document is
   written as the same bytes. The caps are limits that every writer keeps, so whatever was written
   under any limits is read under the default ones. -/
namespace EntityCatalog
variable {α β : Type}

/-- Whatever the first reader finds, the second one finds in the same place. -/
def FoundBy (strict loose : Cursor → Reply α) : Prop :=
  ∀ cursor value next, strict cursor = .done value next → loose cursor = .done value next

namespace FoundBy
variable {strict loose : Cursor → Reply α}

theorem refl (read : Cursor → Reply α) : FoundBy read read := fun _ _ _ found => found

theorem failed (fault : ReadFault) : FoundBy (Reply.failed fault) loose := by
  intro cursor value next found
  cases found

theorem andThen {onward onward_loose : α → Cursor → Reply β} (here : FoundBy strict loose)
    (after : ∀ value, FoundBy (onward value) (onward_loose value)) :
    FoundBy (fun cursor => (strict cursor).andThen onward)
      (fun cursor => (loose cursor).andThen onward_loose) := by
  intro cursor result last found
  obtain ⟨value, next, first, onward_found⟩ := Reply.andThen_eq_done.mp found
  simp only [here cursor value next first, Reply.andThen_done]
  exact after value next result last onward_found

theorem map (here : FoundBy strict loose) (f : α → β) :
    FoundBy (fun cursor => (strict cursor).map f) (fun cursor => (loose cursor).map f) := by
  intro cursor result next found
  obtain ⟨value, first, rfl⟩ := Reply.map_eq_done.mp found
  simp only [here cursor value next first, Reply.map_done]

end FoundBy

theorem readString_looser {strict loose : Nat} (looser : strict ≤ loose) (part : String) :
    FoundBy (Cursor.readString strict part) (Cursor.readString loose part) := by
  have length : FoundBy (Cursor.readLength strict part) (Cursor.readLength loose part) :=
    fun _ _ _ read => readLength_loose looser read
  exact length.andThen fun value => FoundBy.refl _

theorem readMany_looser {readItem readItem_loose : Cursor → Reply α}
    (each : FoundBy readItem readItem_loose) (count : Nat) (taken : List α) :
    FoundBy (readMany readItem count taken) (readMany readItem_loose count taken) := by
  induction count generalizing taken with
  | zero => exact FoundBy.refl _
  | succ count ih =>
    apply each.andThen
    intro item
    exact ih (item :: taken)

section
variable {strict loose : Limits}

theorem readFields_looser (looser : strict ≤ loose)
    {readValue readValue_loose : Cursor → Reply Value} (each : FoundBy readValue readValue_loose)
    (count : Nat) (d : Document) :
    FoundBy (readFields strict readValue count d) (readFields loose readValue_loose count d) := by
  induction count generalizing d with
  | zero => exact FoundBy.refl _
  | succ count ih =>
    apply (readString_looser looser.2.1 "field_name").andThen
    intro name
    apply each.andThen
    intro value
    exact ih (d.set name value)

theorem readDocument_looser (looser : strict ≤ loose)
    {readValue readValue_loose : Cursor → Reply Value} (each : FoundBy readValue readValue_loose) :
    FoundBy (readDocument strict readValue) (readDocument loose readValue_loose) := by
  apply (FoundBy.refl _).andThen
  intro count
  exact readFields_looser looser each count .empty

theorem readPayload_looser (looser : strict ≤ loose)
    {readInner? readInner_loose? : Option (Cursor → Reply Value)}
    (inner : ∀ readInner, readInner? = some readInner →
      ∃ readInner_loose, readInner_loose? = some readInner_loose ∧
        FoundBy readInner readInner_loose) (tag : Tag) :
    FoundBy (readPayload strict readInner? tag) (readPayload loose readInner_loose? tag) := by
  -- Where a container may be opened under the strict limits, it may be under the loose ones.
  cases tag with
  | null => exact FoundBy.refl _
  | bool => exact FoundBy.refl _
  | int32 => exact FoundBy.refl _
  | int64 => exact FoundBy.refl _
  | string => exact (readString_looser looser.2.1 "string").map _
  | array =>
    cases readInner? with
    | none => exact FoundBy.failed _
    | some readInner =>
      obtain ⟨readInner_loose, rfl, each⟩ := inner readInner rfl
      have length : FoundBy (Cursor.readLength strict.arrayLength "array_len")
          (Cursor.readLength loose.arrayLength "array_len") :=
        fun _ _ _ read => readLength_loose looser.2.2.1 read
      apply length.andThen
      intro count
      exact (readMany_looser each count []).map _
  | document =>
    cases readInner? with
    | none => exact FoundBy.failed _
    | some readInner =>
      obtain ⟨readInner_loose, rfl, each⟩ := inner readInner rfl
      exact (readDocument_looser looser each).map _

theorem readValue_looser (looser : strict ≤ loose) {room depth : Nat} (deep : room ≤ depth) :
    FoundBy (readValue strict room) (readValue loose depth) := by
  -- By induction on how many containers may be nested under the strict limits.
  induction room generalizing depth with
  | zero =>
    rw [readValue_eq, readValue_eq]
    apply (FoundBy.refl readTag).andThen
    intro tag
    apply readPayload_looser looser
    intro readInner found
    cases found
  | succ room ih =>
    obtain ⟨depth, rfl⟩ : ∃ inner, depth = inner + 1 := ⟨depth - 1, by omega⟩
    apply (FoundBy.refl readTag).andThen
    intro tag
    apply readPayload_looser looser
    intro readInner found
    cases found
    exact ⟨_, rfl, ih (Nat.le_of_succ_le_succ deep)⟩

theorem decodePlain_looser (looser : strict ≤ loose) {input : Bytes} {d : Document}
    (accepted : decodePlain strict input = .ok d) : decodePlain loose input = .ok d := by
  obtain ⟨body, rfl⟩ := formHeader_of_decodePlain accepted
  rw [decodePlain_formHeader] at accepted ⊢
  split at accepted
  · cases accepted
  · rename_i small
    have allowed : ¬ loose.documentSize < (formHeader ++ body).length := by
      have size := looser.1
      omega
    rw [if_neg allowed]
    split at accepted
    · cases accepted
    · rename_i found stop read
      have again := readDocument_looser looser (readValue_looser looser looser.2.2.2) _ _ _ read
      simp only [again]
      exact accepted

theorem decode_looser {method : Compression} (looser : strict ≤ loose) {input : Bytes}
    {d : Document} (accepted : decode method strict input = .ok d) :
    decode method loose input = .ok d := by
  unfold decode at accepted ⊢
  split at accepted
  · cases accepted
  · rename_i long
    rw [if_neg long]
    split at accepted
    · rename_i packed
      rw [if_pos packed]
      split at accepted
      · cases accepted
      · rename_i plain unpacked
        simp only [unpackSized_loose looser.1 unpacked]
        exact decodePlain_looser looser accepted
    · rename_i unmarked
      rw [if_neg unmarked]
      exact decodePlain_looser looser accepted

mutual

theorem Value.Within.looser (looser : strict ≤ loose) {room depth : Nat} (deep : room ≤ depth)
    (value : Value) (within : value.Within strict room) : value.Within loose depth := by
  cases value with
  | null => trivial
  | bool flag => trivial
  | int32 number => trivial
  | int64 number => trivial
  | string text => exact Nat.le_trans within looser.2.1
  | array items =>
    obtain ⟨open_room, length_le, inner⟩ := within
    exact ⟨by omega, Nat.le_trans length_le looser.2.2.1,
      ItemsWithin.looser looser (by omega) items inner⟩
  | document fields =>
    obtain ⟨open_room, count_le, inner⟩ := within
    exact ⟨by omega, count_le, FieldsWithin.looser looser (by omega) fields inner⟩

theorem ItemsWithin.looser (looser : strict ≤ loose) {room depth : Nat} (deep : room ≤ depth)
    (items : List Value) (within : ItemsWithin strict room items) :
    ItemsWithin loose depth items := by
  cases items with
  | nil => trivial
  | cons item rest =>
    exact ⟨Value.Within.looser looser deep item within.1,
      ItemsWithin.looser looser deep rest within.2⟩

theorem FieldsWithin.looser (looser : strict ≤ loose) {room depth : Nat} (deep : room ≤ depth)
    (fields : List (String × Value)) (within : FieldsWithin strict room fields) :
    FieldsWithin loose depth fields := by
  cases fields with
  | nil => trivial
  | cons field rest =>
    exact ⟨Nat.le_trans within.1 looser.2.1, Value.Within.looser looser deep field.2 within.2.1,
      FieldsWithin.looser looser deep rest within.2.2⟩

end

theorem Limits.capped_mono (looser : strict ≤ loose) : strict.capped ≤ loose.capped := by
  obtain ⟨size, string, array, depth⟩ := looser
  unfold Limits.capped
  refine ⟨?_, ?_, ?_, ?_⟩ <;> simp only <;> omega

theorem encode_looser (looser : strict ≤ loose) {d : Document} {bytes : Bytes}
    (written : encode strict d = .ok bytes) : encode loose d = .ok bytes := by
  obtain ⟨within, small, same⟩ := encode_eq_ok_iff.mp written
  have capped := Limits.capped_mono looser
  exact encode_eq_ok_iff.mpr
    ⟨⟨within.1, FieldsWithin.looser capped capped.2.2.2 d.fields within.2⟩,
      Nat.le_trans small capped.1, same⟩

theorem encodePacked_looser {method : Compression} {level : Int32} (looser : strict ≤ loose)
    {d : Document} {packed : Bytes} (written : encodePacked method level strict d = .ok packed) :
    encodePacked method level loose d = .ok packed := by
  obtain ⟨accepted, made⟩ := encodePacked_eq_ok_iff.mp written
  exact encodePacked_eq_ok_iff.mpr ⟨encode_looser looser accepted, made⟩

end

theorem encode_capped (limits : Limits) (d : Document) :
    encode limits.capped d = encode limits d := by
  unfold encode
  rw [Limits.capped_eq_self limits.capped_le_caps]

theorem encodePacked_capped (method : Compression) (level : Int32) (limits : Limits)
    (d : Document) :
    encodePacked method level limits.capped d = encodePacked method level limits d := by
  unfold encodePacked
  rw [encode_capped]

/-- Looser limits change neither what is read nor what is written, and the default ones are enough
    to read whatever was written under any limits. -/
theorem looser_limits_keep_results (method : Compression) :
    (∀ strict loose : Limits, strict ≤ loose →
      (∀ input d, decode method strict input = .ok d → decode method loose input = .ok d) ∧
      (∀ d bytes, encode strict d = .ok bytes → encode loose d = .ok bytes) ∧
      ∀ level d packed, encodePacked method level strict d = .ok packed →
        encodePacked method level loose d = .ok packed) ∧
    ∀ (limits : Limits) (d : Document), d.DistinctNames →
      (∀ bytes, encode limits d = .ok bytes → decode method default bytes = .ok d) ∧
      (method.Faithful → ∀ level packed, encodePacked method level limits d = .ok packed →
        decode method default packed = .ok d) := by
  constructor
  · intro strict loose looser
    exact ⟨fun _ _ => decode_looser looser, fun _ _ => encode_looser looser,
      fun _ _ _ => encodePacked_looser looser⟩
  · intro limits d distinct
    constructor
    · intro bytes written
      rw [← encode_capped] at written
      exact decode_looser limits.capped_le_caps (decode_of_encode method distinct written)
    · intro faithful level packed written
      rw [← encodePacked_capped] at written
      exact decode_looser limits.capped_le_caps (decode_of_encodePacked faithful distinct written)

def roomyLimits : Limits := ⟨1000000000, 1000000000, 1000000000, 1000⟩

theorem nested_sample_kept :
    nestedSampleLimits ≤ roomyLimits ∧ nestedSample.DistinctNames ∧ storedFrames.Faithful ∧
      encode roomyLimits nestedSample = .ok nestedSample.bytes ∧
      ∃ packed, encodePacked storedFrames 19 nestedSampleLimits nestedSample = .ok packed ∧
        decode storedFrames nestedSampleLimits packed = .ok nestedSample ∧
        encodePacked storedFrames 19 roomyLimits nestedSample = .ok packed ∧
        decode storedFrames roomyLimits packed = .ok nestedSample ∧
        decode storedFrames default packed = .ok nestedSample := by
  obtain ⟨kept, default_reads⟩ := looser_limits_keep_results storedFrames
  have looser : nestedSampleLimits ≤ roomyLimits := by
    refine ⟨?_, ?_, ?_, ?_⟩ <;> decide
  have distinct : nestedSample.DistinctNames := by
    simp [nestedSample, Document.DistinctNames, Document.toValue, Value.DistinctNames,
      ItemsDistinctNames, FieldsDistinctNames]
  obtain ⟨read_kept, written_kept, packed_kept⟩ := kept _ _ looser
  obtain ⟨payload, frame⟩ : ∃ payload, storedFrames.pack 19 nestedSample.bytes = some payload :=
    ⟨_, rfl⟩
  have made := encodePacked_eq_ok_iff.mpr ⟨nestedSample_accepted, payload, frame, rfl⟩
  have read := decode_of_encodePacked storedFrames_faithful distinct made
  have loosely_made := packed_kept _ _ _ made
  exact ⟨looser, distinct, storedFrames_faithful, written_kept _ _ nestedSample_accepted, _, made,
    read, loosely_made, read_kept _ _ read,
    (default_reads roomyLimits _ distinct).2 storedFrames_faithful _ _ loosely_made⟩

end EntityCatalog
