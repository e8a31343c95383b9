import Scim.Proofs.Resource.Access
import Mathlib.Data.List.Sort

/-!
# Entries after writing

Every entry of an object that has been written to was there before, or is the one that was put in.
This holds of any object, also of one in which a name stands under several spellings.
-/

namespace Scim.Object

variable {object : Object} {name key : String} {value : Json} {entry : String × Json}

/-! ### What is read is an entry -/

theorem mem_of_get? (found : object.get? key = some value) : (key, value) ∈ object := by
  obtain ⟨entry, first, rfl⟩ := Option.map_eq_some_iff.mp found
  have same : entry.1 = key := by simpa using List.find?_some first
  have member := List.mem_of_find?_eq_some first
  rw [← same]
  exact member

theorem mem_of_slot? (stored : object.slot? name = some value) :
    ∃ key, (key, value) ∈ object ∧ Text.fold key = Text.fold name := by
  obtain ⟨key, spelling, found⟩ := Option.bind_eq_some_iff.mp stored
  exact ⟨key, mem_of_get? found, (spelling?_eq_some spelling).2⟩

theorem mem_of_attribute? (stored : object.attribute? name = some value) :
    ∃ key, (key, value) ∈ object ∧ Text.fold key = Text.fold name := by
  unfold attribute? at stored
  cases there : object.get? name with
  | some atName =>
    rw [there] at stored
    cases stored
    exact ⟨name, mem_of_get? there, rfl⟩
  | none =>
    rw [there] at stored
    obtain ⟨entry, first, rfl⟩ := Option.map_eq_some_iff.mp stored
    have same : Text.sameName entry.1 name = true := by simpa using List.find?_some first
    exact ⟨entry.1, List.mem_of_find?_eq_some first, Text.sameName_iff.mp same⟩

/-- Where no two keys are the same, an entry is what its key holds. -/
theorem get?_of_mem (distinct : object.Distinct) (member : (key, value) ∈ object) :
    object.get? key = some value := by
  induction object with
  | nil => cases member
  | cons head rest ih =>
    obtain ⟨apart, distinctRest⟩ := List.pairwise_cons.mp distinct
    rw [get?_cons]
    rcases List.mem_cons.mp member with rfl | behind
    · exact if_pos rfl
    · have different : head.1 ≠ key := fun equal =>
        apart key (List.mem_map_of_mem behind) (congrArg Text.fold equal)
      rw [if_neg different]
      exact ih distinctRest behind

theorem attribute?_of_mem (distinct : object.Distinct) (member : (key, value) ∈ object)
    (same : Text.fold key = Text.fold name) : object.attribute? name = some value :=
  (attribute?_eq_some_iff distinct.unambiguous).mpr ⟨key, same, get?_of_mem distinct member⟩

/-! ### What is written is an entry -/

theorem mem_insert (member : entry ∈ object.insert key value) :
    entry = (key, value) ∨ entry ∈ object := by
  induction object with
  | nil => exact .inl (List.mem_singleton.mp member)
  | cons head rest ih =>
    unfold insert at member
    split at member
    · rcases List.mem_cons.mp member with new | behind
      · exact .inl new
      · exact .inr (List.mem_cons_of_mem _ behind)
    · split at member
      · rcases List.mem_cons.mp member with new | old
        · exact .inl new
        · exact .inr old
      · rcases List.mem_cons.mp member with rfl | behind
        · exact .inr List.mem_cons_self
        · exact (ih behind).imp_right (List.mem_cons_of_mem _)

theorem mem_insert_self : (key, value) ∈ object.insert key value := by
  induction object with
  | nil => exact List.mem_singleton_self _
  | cons head rest ih =>
    unfold insert
    split
    · exact List.mem_cons_self
    · split
      · exact List.mem_cons_self
      · exact List.mem_cons_of_mem _ ih

/-- Entries under other keys stay. -/
theorem mem_insert_of_ne (member : entry ∈ object) (different : entry.1 ≠ key) :
    entry ∈ object.insert key value := by
  induction object with
  | nil => cases member
  | cons head rest ih =>
    unfold insert
    split
    next atHead =>
      rcases List.mem_cons.mp member with rfl | behind
      · exact absurd atHead.symm different
      · exact List.mem_cons_of_mem _ behind
    · split
      · exact List.mem_cons_of_mem _ member
      · rcases List.mem_cons.mp member with rfl | behind
        · exact List.mem_cons_self
        · exact List.mem_cons_of_mem _ (ih behind)

/-- A key that comes before all others is put in front of them. -/
theorem insert_of_forall_gt (first : ∀ other ∈ object.keys, key < other) :
    object.insert key value = (key, value) :: object := by
  cases object with
  | nil => rfl
  | cons entry rest =>
    have before := first entry.1 List.mem_cons_self
    have different : key ≠ entry.1 := fun same => String.lt_irrefl key (same ▸ before)
    rw [insert, if_neg different, if_pos before]

/-- A key that comes behind all others is put at the end. -/
theorem insert_of_forall_lt (last : ∀ other ∈ object.keys, other < key) :
    object.insert key value = object ++ [(key, value)] := by
  induction object with
  | nil => rfl
  | cons entry rest ih =>
    obtain ⟨before, lastOfRest⟩ := List.forall_mem_cons.mp last
    have different : key ≠ entry.1 := fun same => String.lt_irrefl key (same ▸ before)
    rw [insert, if_neg different, if_neg (String.lt_asymm before)]
    exact congrArg (entry :: ·) (ih lastOfRest)

theorem mem_erase (member : entry ∈ object.erase key) : entry ∈ object :=
  (List.mem_filter.mp member).1

theorem mem_setAttribute (member : entry ∈ object.setAttribute name value) :
    entry = (name, value) ∨ entry ∈ object := by
  unfold setAttribute at member
  split at member
  · split at member
    · exact mem_insert member
    · exact (mem_insert member).imp_right mem_erase
  · exact mem_insert member

theorem mem_removeAttribute (member : entry ∈ object.removeAttribute name) : entry ∈ object := by
  unfold removeAttribute at member
  split at member
  · exact mem_erase member
  · exact member

/-- What replaces a value stands under the key of that value. -/
theorem mem_replaceSlot (member : entry ∈ object.replaceSlot name value) :
    (∃ key ∈ object.keys, Text.fold key = Text.fold name ∧ entry = (key, value)) ∨ entry ∈ object := by
  unfold replaceSlot at member
  split at member
  next key spelling =>
    obtain ⟨there, same⟩ := spelling?_eq_some spelling
    exact (mem_insert member).imp_left fun new => ⟨key, there, same, new⟩
  · exact .inr member

/-- An object that is made of entries has no others. -/
theorem mem_ofEntries {entries : List (String × Json)} (member : entry ∈ ofEntries entries) :
    entry ∈ entries := by
  suffices fold : ∀ object : Object,
      entry ∈ entries.foldl (fun object entry => object.insert entry.1 entry.2) object →
        entry ∈ object ∨ entry ∈ entries from
    (fold [] member).resolve_left List.not_mem_nil
  clear member
  induction entries with
  | nil => exact fun _ member => .inl member
  | cons head rest ih =>
    intro object member
    -- What the rest starts from is the object with the first entry in it.
    rcases ih _ member with inserted | behind
    · rcases mem_insert inserted with rfl | old
      · exact .inr List.mem_cons_self
      · exact .inl old
    · exact .inr (List.mem_cons_of_mem _ behind)

/-- An object is made of its own entries. -/
theorem ofEntries_of_sorted (sorted : object.Sorted) : ofEntries object = object := by
  suffices fold : ∀ front : Object, Sorted (front ++ object) →
      object.foldl (fun object entry => object.insert entry.1 entry.2) front = front ++ object from
    fold [] sorted
  clear sorted
  -- What has been put in comes before all that follows, so each entry goes to the end.
  induction object with
  | nil => exact fun front _ => (List.append_nil front).symm
  | cons entry rest ih =>
    intro front sorted
    have last : ∀ other ∈ front.keys, other < entry.1 := by
      unfold Sorted keys at sorted
      rw [List.map_append] at sorted
      intro other member
      exact (List.pairwise_append.mp sorted).2.2 other member entry.1 List.mem_cons_self
    rw [List.append_cons] at sorted
    rw [List.foldl_cons, insert_of_forall_lt last, ih _ sorted, ← List.append_cons]

/-- An object that is made of entries under different keys has them all. -/
theorem mem_ofEntries_iff {entries : List (String × Json)} (distinct : Distinct entries) :
    entry ∈ ofEntries entries ↔ entry ∈ entries := by
  refine ⟨mem_ofEntries, fun member => ?_⟩
  -- An entry stays once it has been put in, as none of those that follow has its key.
  suffices fold : ∀ object : Object,
      (entry ∈ object ∧ ∀ other ∈ entries, entry.1 ≠ other.1) ∨ entry ∈ entries →
        entry ∈ entries.foldl (fun object entry => object.insert entry.1 entry.2) object from
    fold [] (.inr member)
  clear member
  induction entries with
  | nil => exact fun _ found => found.elim And.left nofun
  | cons head rest ih =>
    obtain ⟨apart, distinctRest⟩ := List.pairwise_cons.mp distinct
    intro object found
    refine ih distinctRest _ ?_
    rcases found with ⟨there, others⟩ | member
    · refine .inl ⟨mem_insert_of_ne there (others head List.mem_cons_self), fun other behind => ?_⟩
      exact others other (List.mem_cons_of_mem _ behind)
    · rcases List.mem_cons.mp member with rfl | behind
      · refine .inl ⟨mem_insert_self, fun other behind same => ?_⟩
        exact apart other.1 (List.mem_map_of_mem behind) (congrArg Text.fold same)
      · exact .inr behind

/-- Entries that keep their names up to case keep them apart. -/
theorem Distinct.filterMap (distinct : object.Distinct)
    {change : String × Json → Option (String × Json)}
    (keeps : ∀ entry changed, change entry = some changed → Text.fold changed.1 = Text.fold entry.1) :
    Distinct (object.filterMap change) := by
  refine List.pairwise_map.mpr (List.Pairwise.filterMap change ?_ (List.pairwise_map.mp distinct))
  intro first second apart changed made changedSecond madeSecond same
  rw [keeps first changed made, keeps second changedSecond madeSecond] at same
  exact apart same

/-- Objects with the same entries are the same object. -/
theorem Sorted.eq_of_mem_iff {other : Object} (sorted : object.Sorted) (sortedOther : other.Sorted)
    (same : ∀ entry, entry ∈ object ↔ entry ∈ other) : object = other := by
  let below (first second : String × Json) : Prop := first.1 < second.1
  have : Std.Irrefl below := ⟨fun entry => String.lt_irrefl entry.1⟩
  have : Std.Antisymm below := ⟨fun _ _ less greater => absurd greater (String.lt_asymm less)⟩
  exact (List.pairwise_map.mp sorted : object.Pairwise below).eq_of_mem_iff
    (List.pairwise_map.mp sortedOther) same

end Scim.Object

/-! ### What holds anything -/

namespace Scim.Json

theorem anyItemPresent_eq_any (items : List Json) : anyItemPresent items = items.any isPresent := by
  induction items with
  | nil => rfl
  | cons item rest ih => rw [anyItemPresent, List.any_cons, ih]

theorem anyEntryPresent_eq_any (object : Object) :
    anyEntryPresent object = object.any fun entry => entry.2.isPresent := by
  induction object with
  | nil => rfl
  | cons entry rest ih => rw [anyEntryPresent, List.any_cons, ih]

theorem isPresent_array_iff {items : List Json} :
    isPresent (.array items) = true ↔ ∃ item ∈ items, item.isPresent = true := by
  rw [isPresent, anyItemPresent_eq_any, List.any_eq_true]

theorem isPresent_object_iff {object : Object} :
    isPresent (.object object) = true ↔ ∃ entry ∈ object, entry.2.isPresent = true := by
  rw [isPresent, anyEntryPresent_eq_any, List.any_eq_true]

/-! ### Objects in order -/

theorem ordered_array_iff {items : List Json} :
    Ordered (.array items) ↔ ∀ item ∈ items, item.Ordered := by
  rw [Ordered]
  induction items with
  | nil => simp [OrderedItems]
  | cons item rest ih => rw [OrderedItems, ih, List.forall_mem_cons]

theorem orderedEntries_iff {object : Object} : OrderedEntries object ↔ ∀ entry ∈ object, entry.2.Ordered := by
  induction object with
  | nil => simp [OrderedEntries]
  | cons entry rest ih => rw [OrderedEntries, ih, List.forall_mem_cons]

theorem ordered_object_iff {object : Object} :
    Ordered (.object object) ↔ object.Sorted ∧ ∀ entry ∈ object, entry.2.Ordered := by
  rw [Ordered, orderedEntries_iff]

end Scim.Json
