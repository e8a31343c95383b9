import Scim.Proofs.Resource.Distinct
import Scim.Proofs.Text.Ascii
import Mathlib.Data.List.Forall2

/-!
# Values up to the case of their keys

`Json.lowered` writes the keys of all objects in small letters, which puts the entries of an object
in another order. Two values in which no name stands twice differ in the case of their keys only if
they have the same lowered form. Reading an attribute commutes with lowering, whatever the case in
which the attribute is asked for.
-/

namespace Scim

/-! ### Entries in another order -/

namespace Object

variable {object other : Object}

theorem Sorted.nodup (sorted : object.Sorted) : object.Nodup := by
  have keys : object.keys.Nodup := List.Pairwise.imp (fun less => String.ne_of_lt less) sorted
  exact keys.of_map _

theorem Distinct.nodup (distinct : object.Distinct) : object.Nodup := by
  have keys : object.keys.Nodup :=
    List.Pairwise.imp (fun apart equal => apart (congrArg Text.fold equal)) distinct
  exact keys.of_map _

theorem Distinct.perm (distinct : object.Distinct) (perm : object.Perm other) : other.Distinct :=
  (perm.map Prod.fst).pairwise distinct fun apart => apart.symm

/-- Entries under different names are put in order, and nothing else happens to them. -/
theorem ofEntries_perm (distinct : object.Distinct) : List.Perm (ofEntries object) object :=
  (List.perm_ext_iff_of_nodup (sorted_ofEntries object).nodup distinct.nodup).mpr fun _ =>
    mem_ofEntries_iff distinct

/-- The order in which entries are put in does not matter. -/
theorem ofEntries_congr (distinct : object.Distinct) (perm : object.Perm other) :
    ofEntries object = ofEntries other := by
  refine (sorted_ofEntries object).eq_of_mem_iff (sorted_ofEntries other) fun entry => ?_
  rw [mem_ofEntries_iff distinct, mem_ofEntries_iff (distinct.perm perm), perm.mem_iff]

end Object

/-! ### Lowered values -/

namespace Json

mutual

/-- The value with the keys of all its objects in small ASCII letters. -/
def lowered : Json → Json
  | .array items => .array (loweredItems items)
  | .object entries => .object (Object.ofEntries (loweredEntries entries))
  | value => value

def loweredItems : List Json → List Json
  | [] => []
  | item :: rest => lowered item :: loweredItems rest

def loweredEntries : Object → List (String × Json)
  | [] => []
  | (key, value) :: rest => (Text.lowerAscii key, lowered value) :: loweredEntries rest

end

def loweredEntry (entry : String × Json) : String × Json := (Text.lowerAscii entry.1, entry.2.lowered)

theorem loweredItems_eq_map (items : List Json) : loweredItems items = items.map lowered := by
  induction items with
  | nil => rfl
  | cons item rest ih => rw [loweredItems, ih, List.map_cons]

theorem loweredEntries_eq_map (object : Object) : loweredEntries object = object.map loweredEntry := by
  induction object with
  | nil => rfl
  | cons entry rest ih => rw [loweredEntries, ih, List.map_cons, loweredEntry]

@[simp] theorem lowered_array (items : List Json) : (array items).lowered = .array (items.map lowered) := by
  rw [lowered, loweredItems_eq_map]

end Json

namespace Object

variable {object : Object} {name : String}

def lowered (object : Object) : Object := ofEntries (object.map Json.loweredEntry)

theorem distinct_loweredEntries (distinct : object.Distinct) :
    Distinct (object.map Json.loweredEntry) := by
  rw [Distinct, keys, List.map_map, List.pairwise_map]
  refine (List.pairwise_map.mp distinct).imp fun apart => ?_
  simpa [Json.loweredEntry] using apart

theorem lowered_perm (distinct : object.Distinct) :
    List.Perm object.lowered (object.map Json.loweredEntry) :=
  ofEntries_perm (distinct_loweredEntries distinct)

theorem Distinct.lowered (distinct : object.Distinct) : object.lowered.Distinct :=
  (distinct_loweredEntries distinct).perm (lowered_perm distinct).symm

theorem mem_lowered_iff (distinct : object.Distinct) {entry : String × Json} :
    entry ∈ object.lowered ↔ ∃ stored ∈ object, Json.loweredEntry stored = entry := by
  rw [(lowered_perm distinct).mem_iff, List.mem_map]

/-- Where names are different, making an object of entries only reorders them. -/
theorem lowered_ofEntries {entries : List (String × Json)} (distinct : Distinct entries) :
    Object.lowered (ofEntries entries) = ofEntries (entries.map Json.loweredEntry) :=
  ofEntries_congr (distinct_loweredEntries (distinct.perm (ofEntries_perm distinct).symm))
    ((ofEntries_perm distinct).map _)

/-- A name holds the lowered form of what it held. -/
theorem attribute?_lowered (distinct : object.Distinct) (name : String) :
    object.lowered.attribute? name = (object.attribute? name).map Json.lowered := by
  ext value
  rw [Option.map_eq_some_iff]
  constructor
  · intro read
    obtain ⟨key, member, same⟩ := mem_of_attribute? read
    obtain ⟨stored, there, lowered⟩ := (mem_lowered_iff distinct).mp member
    cases lowered
    rw [Text.fold_lowerAscii] at same
    exact ⟨stored.2, attribute?_of_mem distinct there same, rfl⟩
  · rintro ⟨stored, read, rfl⟩
    obtain ⟨key, member, same⟩ := mem_of_attribute? read
    have there := (mem_lowered_iff distinct).mpr ⟨_, member, rfl⟩
    exact attribute?_of_mem distinct.lowered there ((Text.fold_lowerAscii key).trans same)

end Object

namespace Json

@[simp] theorem lowered_object (object : Object) : (Json.object object).lowered = .object object.lowered := by
  rw [lowered, loweredEntries_eq_map, Object.lowered]

@[simp] theorem isNull_lowered (value : Json) : value.lowered.isNull = value.isNull := by
  cases value <;> rfl

@[simp] theorem string?_lowered (value : Json) : value.lowered.string? = value.string? := by
  cases value <;> rfl

@[simp] theorem bool?_lowered (value : Json) : value.lowered.bool? = value.bool? := by
  cases value <;> rfl

@[simp] theorem object?_lowered (value : Json) :
    value.lowered.object? = value.object?.map Object.lowered := by
  cases value with
  | object object => simp [object?]
  | array items => simp [object?]
  | _ => rfl

mutual

/-- A lowered value holds something if and only if the value does. -/
theorem isPresent_lowered : ∀ value : Json, value.isDistinct = true →
    value.lowered.isPresent = value.isPresent
  | .null, _ | .bool _, _ | .number _, _ | .string _, _ => rfl
  | .array items, distinct => isPresent_loweredItems items distinct
  | .object entries, distinct => by
    obtain ⟨apart, _⟩ := isDistinct_object_iff.mp distinct
    rw [isDistinct, Bool.and_eq_true] at distinct
    have perm := Object.lowered_perm apart
    rw [lowered_object, isPresent, isPresent, anyEntryPresent_eq_any, perm.any_eq,
      ← anyEntryPresent_eq_any, ← loweredEntries_eq_map, isPresent_loweredEntries entries distinct.2]

theorem isPresent_loweredItems : ∀ items : List Json, isDistinctItems items = true →
    anyItemPresent (loweredItems items) = anyItemPresent items
  | [], _ => rfl
  | item :: rest, distinct => by
    rw [isDistinctItems, Bool.and_eq_true] at distinct
    rw [loweredItems, anyItemPresent, anyItemPresent, isPresent_lowered item distinct.1,
      isPresent_loweredItems rest distinct.2]

theorem isPresent_loweredEntries : ∀ entries : Object, isDistinctEntries entries = true →
    anyEntryPresent (loweredEntries entries) = anyEntryPresent entries
  | [], _ => rfl
  | (key, value) :: rest, distinct => by
    rw [isDistinctEntries, Bool.and_eq_true] at distinct
    rw [loweredEntries, anyEntryPresent, anyEntryPresent, isPresent_lowered value distinct.1,
      isPresent_loweredEntries rest distinct.2]

end

mutual

theorem isDistinct_lowered : ∀ value : Json, value.isDistinct = true → value.lowered.isDistinct = true
  | .null, _ | .bool _, _ | .number _, _ | .string _, _ => rfl
  | .array items, distinct => isDistinct_loweredItems items distinct
  | .object entries, distinct => by
    obtain ⟨apart, _⟩ := isDistinct_object_iff.mp distinct
    rw [isDistinct, Bool.and_eq_true] at distinct
    have values := isDistinct_loweredEntries entries distinct.2
    rw [loweredEntries_eq_map, isDistinctEntries_eq_all, List.all_eq_true] at values
    rw [lowered_object]
    refine isDistinct_object_iff.mpr ⟨apart.lowered, fun entry member => values entry ?_⟩
    exact (Object.lowered_perm apart).mem_iff.mp member

theorem isDistinct_loweredItems : ∀ items : List Json, isDistinctItems items = true →
    isDistinctItems (loweredItems items) = true
  | [], _ => rfl
  | item :: rest, distinct => by
    rw [isDistinctItems, Bool.and_eq_true] at distinct
    rw [loweredItems, isDistinctItems, isDistinct_lowered item distinct.1,
      isDistinct_loweredItems rest distinct.2, Bool.and_self]

theorem isDistinct_loweredEntries : ∀ entries : Object, isDistinctEntries entries = true →
    isDistinctEntries (loweredEntries entries) = true
  | [], _ => rfl
  | (key, value) :: rest, distinct => by
    rw [isDistinctEntries, Bool.and_eq_true] at distinct
    rw [loweredEntries, isDistinctEntries, isDistinct_lowered value distinct.1,
      isDistinct_loweredEntries rest distinct.2, Bool.and_self]

end

mutual

/-- A lowered value is in lowered form. -/
theorem lowered_lowered : ∀ value : Json, value.isDistinct = true → value.lowered.lowered = value.lowered
  | .null, _ | .bool _, _ | .number _, _ | .string _, _ => rfl
  | .array items, distinct => congrArg Json.array (lowered_loweredItems items distinct)
  | .object entries, distinct => by
    obtain ⟨apart, _⟩ := isDistinct_object_iff.mp distinct
    rw [isDistinct, Bool.and_eq_true] at distinct
    have again := lowered_loweredEntries entries distinct.2
    rw [loweredEntries_eq_map, loweredEntries_eq_map] at again
    have whole : Object.lowered (Object.ofEntries (entries.map loweredEntry)) =
        Object.ofEntries (entries.map loweredEntry) := by
      rw [Object.lowered_ofEntries (Object.distinct_loweredEntries apart), again]
    rw [lowered_object, lowered_object]
    exact congrArg Json.object whole

theorem lowered_loweredItems : ∀ items : List Json, isDistinctItems items = true →
    loweredItems (loweredItems items) = loweredItems items
  | [], _ => rfl
  | item :: rest, distinct => by
    rw [isDistinctItems, Bool.and_eq_true] at distinct
    rw [loweredItems, loweredItems, lowered_lowered item distinct.1, lowered_loweredItems rest distinct.2]

theorem lowered_loweredEntries : ∀ entries : Object, isDistinctEntries entries = true →
    loweredEntries (loweredEntries entries) = loweredEntries entries
  | [], _ => rfl
  | (key, value) :: rest, distinct => by
    rw [isDistinctEntries, Bool.and_eq_true] at distinct
    rw [loweredEntries, loweredEntries, Text.lowerAscii_lowerAscii, lowered_lowered value distinct.1,
      lowered_loweredEntries rest distinct.2]

end

theorem loweredEntry_loweredEntry {entry : String × Json} (distinct : entry.2.isDistinct = true) :
    loweredEntry (loweredEntry entry) = loweredEntry entry := by
  simp [loweredEntry, lowered_lowered entry.2 distinct]

end Json

/-! ### Entries that are changed one by one -/

namespace Object

variable {object : Object} {change : String × Json → Option (String × Json)}

/-- A change of entries that keeps their names and does not see their case does not see the case of
the keys of an object. -/
theorem lowered_filterMap (distinct : object.Distinct)
    (keeps : ∀ entry changed, change entry = some changed → Text.fold changed.1 = Text.fold entry.1)
    (same : ∀ entry ∈ object,
      (change (Json.loweredEntry entry)).map Json.loweredEntry = (change entry).map Json.loweredEntry) :
    Object.lowered (ofEntries (object.lowered.filterMap change)) =
      Object.lowered (ofEntries (object.filterMap change)) := by
  have changed : Distinct (object.filterMap change) := distinct.filterMap keeps
  have changedLowered : Distinct (object.lowered.filterMap change) := distinct.lowered.filterMap keeps
  have entries : ((object.map Json.loweredEntry).filterMap change).map Json.loweredEntry =
      (object.filterMap change).map Json.loweredEntry := by
    rw [List.filterMap_map, List.map_filterMap, List.map_filterMap]
    exact List.filterMap_congr same
  calc Object.lowered (ofEntries (object.lowered.filterMap change))
      = ofEntries ((object.lowered.filterMap change).map Json.loweredEntry) :=
        lowered_ofEntries changedLowered
    _ = ofEntries (((object.map Json.loweredEntry).filterMap change).map Json.loweredEntry) :=
        ofEntries_congr (distinct_loweredEntries changedLowered)
          (((lowered_perm distinct).filterMap change).map _)
    _ = ofEntries ((object.filterMap change).map Json.loweredEntry) := by rw [entries]
    _ = Object.lowered (ofEntries (object.filterMap change)) := (lowered_ofEntries changed).symm

theorem isDistinct_filterMap (distinct : object.Distinct)
    (keeps : ∀ entry changed, change entry = some changed → Text.fold changed.1 = Text.fold entry.1)
    (values : ∀ entry ∈ object, ∀ changed ∈ change entry, changed.2.isDistinct = true) :
    Json.isDistinct (.object (ofEntries (object.filterMap change))) = true := by
  have changed : Distinct (object.filterMap change) := distinct.filterMap keeps
  refine Json.isDistinct_object_iff.mpr
    ⟨changed.perm (ofEntries_perm changed).symm, fun entry member => ?_⟩
  obtain ⟨stored, there, made⟩ := List.mem_filterMap.mp (mem_ofEntries member)
  exact values stored there entry made

theorem isEmpty_eq_of_lowered {other : Object} (distinct : object.Distinct) (distinctOther : other.Distinct)
    (same : object.lowered = other.lowered) : object.isEmpty = other.isEmpty := by
  have lengths : object.length = other.length := by
    have left := (lowered_perm distinct).length_eq
    rw [same, (lowered_perm distinctOther).length_eq] at left
    simpa using left.symm
  rw [Bool.eq_iff_iff, List.isEmpty_iff_length_eq_zero, List.isEmpty_iff_length_eq_zero, lengths]

end Object

/-! ### Recased values -/

namespace Json

/-- Two values that differ in the case of the keys of their objects at most, and in which no name
stands twice. -/
structure Recased (value other : Json) : Prop where
  lowered_eq : value.lowered = other.lowered
  distinct : value.isDistinct = true
  distinct_other : other.isDistinct = true

/-- Recased values hold something or do not. -/
theorem Recased.isPresent_eq {value other : Json} (recased : value.Recased other) :
    value.isPresent = other.isPresent := by
  rw [← isPresent_lowered value recased.distinct, recased.lowered_eq,
    isPresent_lowered other recased.distinct_other]

/-- Arrays are recased item by item. -/
theorem lowered_array_eq_iff {items others : List Json} :
    (array items).lowered = (array others).lowered ↔
      List.Forall₂ (fun item other => item.lowered = other.lowered) items others := by
  rw [lowered_array, lowered_array, Json.array.injEq, ← List.forall₂_eq_eq_eq,
    List.forall₂_map_left_iff, List.forall₂_map_right_iff]

/-- Objects are recased if every entry of either has its counterpart in the other. -/
theorem lowered_object_eq_iff {object other : Object} (distinct : object.Distinct)
    (distinctOther : other.Distinct) :
    (Json.object object).lowered = (Json.object other).lowered ↔
      (∀ entry ∈ object, ∃ counterpart ∈ other,
        Text.fold counterpart.1 = Text.fold entry.1 ∧ counterpart.2.lowered = entry.2.lowered) ∧
      ∀ counterpart ∈ other, ∃ entry ∈ object,
        Text.fold counterpart.1 = Text.fold entry.1 ∧ counterpart.2.lowered = entry.2.lowered := by
  have sameEntry {entry counterpart : String × Json} : loweredEntry counterpart = loweredEntry entry ↔
      Text.fold counterpart.1 = Text.fold entry.1 ∧ counterpart.2.lowered = entry.2.lowered := by
    rw [loweredEntry, loweredEntry, Prod.mk.injEq, Text.lowerAscii_eq_iff]
  simp only [lowered_object, Json.object.injEq, ← sameEntry]
  constructor
  · intro same
    refine ⟨fun entry member => ?_, fun counterpart member => ?_⟩
    · have there := (Object.mem_lowered_iff distinct).mpr ⟨entry, member, rfl⟩
      exact (Object.mem_lowered_iff distinctOther).mp (same ▸ there)
    · have there := (Object.mem_lowered_iff distinctOther).mpr ⟨counterpart, member, rfl⟩
      obtain ⟨entry, member, lowered⟩ := (Object.mem_lowered_iff distinct).mp (same ▸ there)
      exact ⟨entry, member, lowered.symm⟩
  · rintro ⟨forth, back⟩
    refine (Object.sorted_ofEntries _).eq_of_mem_iff (Object.sorted_ofEntries _) fun entry => ?_
    refine (Object.mem_lowered_iff distinct).trans (Iff.trans ?_ (Object.mem_lowered_iff distinctOther).symm)
    constructor
    · rintro ⟨stored, member, rfl⟩
      exact forth stored member
    · rintro ⟨counterpart, member, rfl⟩
      obtain ⟨stored, there, lowered⟩ := back counterpart member
      exact ⟨stored, there, lowered.symm⟩

end Json

end Scim
