import Scim.Proofs.Resource.Keyed

/-!
# Objects known by their entries

An object whose keys are in order, with one key for each name, is known by what stands under each
name. `named?` gives that, the spelling included, and each way of writing to an object is an equation
for it. Two rows of writes come to the same object if their equations do.
-/

namespace Scim

namespace Object

variable {object after : Object} {name other : String} {value second : Json} {entry : String × Json}

/-- The entry under a name, in the spelling that the object has. -/
def named? (object : Object) (name : String) : Option (String × Json) :=
  object.find? (Text.sameName ·.1 name)

/-- The keys of an object are in order, and no two of them are the same up to case. -/
structure Regular (object : Object) : Prop where
  sorted : object.Sorted
  unambiguous : object.Unambiguous

theorem regular_of_isKeyed (keyed : Json.IsKeyed (.object object)) : object.Regular := by
  obtain ⟨sorted, distinct, _⟩ := Json.isKeyed_object_iff.mp keyed
  exact ⟨sorted, distinct.unambiguous⟩

theorem regular_nil : Regular [] := ⟨List.Pairwise.nil, unambiguous_nil⟩

/-! ### Reading entries -/

theorem named?_congr (object : Object) (same : Text.fold name = Text.fold other) :
    object.named? name = object.named? other := by
  simp [named?, Text.sameName, same]

theorem spelling?_eq_named? (object : Object) (name : String) :
    object.spelling? name = (object.named? name).map (·.1) := rfl

namespace Regular

theorem distinct (regular : object.Regular) : object.Distinct :=
  regular.sorted.distinct regular.unambiguous

theorem named?_eq_some_iff (regular : object.Regular) :
    object.named? name = some entry ↔ entry ∈ object ∧ Text.fold entry.1 = Text.fold name := by
  constructor
  · intro found
    exact ⟨List.mem_of_find?_eq_some found, (mem_keys_of_find? found).2⟩
  · rintro ⟨member, same⟩
    exact find?_of_get? regular.unambiguous (get?_of_mem regular.distinct member) same

/-- An entry is what stands under its own name. -/
theorem mem_iff (regular : object.Regular) : entry ∈ object ↔ object.named? entry.1 = some entry := by
  simp [regular.named?_eq_some_iff]

theorem attribute?_eq_named? (regular : object.Regular) (name : String) :
    object.attribute? name = (object.named? name).map (·.2) := by
  ext value
  rw [Option.map_eq_some_iff]
  constructor
  · intro read
    obtain ⟨key, member, same⟩ := mem_of_attribute? read
    exact ⟨(key, value), regular.named?_eq_some_iff.mpr ⟨member, same⟩, rfl⟩
  · rintro ⟨entry, found, rfl⟩
    obtain ⟨member, same⟩ := regular.named?_eq_some_iff.mp found
    exact attribute?_of_mem regular.distinct member same

theorem slot?_eq_named? (regular : object.Regular) (name : String) :
    object.slot? name = (object.named? name).map (·.2) :=
  (slot?_eq_attribute? regular.unambiguous).trans (regular.attribute?_eq_named? name)

/-- Objects with the same entry under each name are one object. -/
theorem ext (regular : object.Regular) (regularAfter : after.Regular)
    (same : ∀ name, object.named? name = after.named? name) : object = after := by
  refine regular.sorted.eq_of_mem_iff regularAfter.sorted fun entry => ?_
  rw [regular.mem_iff, regularAfter.mem_iff, same]

/-- An object holds something if something stands under one of its names. -/
theorem holdsAny_iff (regular : object.Regular) :
    object.holdsAny = true ↔ ∃ name entry, object.named? name = some entry ∧ entry.2.isPresent = true := by
  refine Json.isPresent_object_iff.trans ?_
  constructor
  · rintro ⟨entry, member, present⟩
    exact ⟨entry.1, entry, regular.named?_eq_some_iff.mpr ⟨member, rfl⟩, present⟩
  · rintro ⟨_, entry, found, present⟩
    exact ⟨entry, (regular.named?_eq_some_iff.mp found).1, present⟩

end Regular

/-! ### Writing entries -/

namespace Regular

theorem of_edits (regular : object.Regular) (edits : Edits name object after) : after.Regular :=
  ⟨edits.sorted regular.sorted, (edits.changesOnly regular.unambiguous).unambiguous⟩

theorem setAttribute (regular : object.Regular) (name : String) (value : Json) :
    Regular (object.setAttribute name value) :=
  regular.of_edits (.set value .refl)

theorem removeAttribute (regular : object.Regular) (name : String) :
    Regular (object.removeAttribute name) :=
  regular.of_edits (.remove .refl)

theorem replaceSlot (regular : object.Regular) (name : String) (value : Json) :
    Regular (object.replaceSlot name value) :=
  regular.of_edits (.replace value .refl)

/-- Writes under one name leave the entries under all other names. -/
theorem named?_of_edits (regular : object.Regular) (edits : Edits name object after)
    (apart : Text.fold other ≠ Text.fold name) : after.named? other = object.named? other := by
  have same := edits.sameExcept
  ext entry
  rw [(regular.of_edits edits).named?_eq_some_iff, regular.named?_eq_some_iff]
  refine and_congr_left fun isOther => same entry fun written member => ?_
  rw [List.mem_singleton.mp member, isOther]
  exact apart

theorem named?_setAttribute (regular : object.Regular) :
    Object.named? (object.setAttribute name value) other =
      if Text.fold other = Text.fold name then some (name, value) else object.named? other := by
  by_cases same : Text.fold other = Text.fold name
  · have there : (name, value) ∈ object.setAttribute name value := by
      unfold Object.setAttribute
      split
      · split <;> exact mem_insert_self
      · exact mem_insert_self
    rw [if_pos same]
    exact (regular.setAttribute name value).named?_eq_some_iff.mpr ⟨there, same.symm⟩
  · rw [if_neg same]
    exact regular.named?_of_edits (.set value .refl) same

theorem named?_removeAttribute (regular : object.Regular) :
    Object.named? (object.removeAttribute name) other =
      if Text.fold other = Text.fold name then none else object.named? other := by
  by_cases same : Text.fold other = Text.fold name
  · have gone := attribute?_removeAttribute_self regular.unambiguous same
    rw [(regular.removeAttribute name).attribute?_eq_named?] at gone
    rw [if_pos same]
    exact Option.map_eq_none_iff.mp gone
  · rw [if_neg same]
    exact regular.named?_of_edits (.remove .refl) same

theorem named?_replaceSlot (regular : object.Regular) :
    Object.named? (object.replaceSlot name value) other =
      if Text.fold other = Text.fold name then (object.named? name).map fun entry => (entry.1, value)
      else object.named? other := by
  by_cases same : Text.fold other = Text.fold name
  · rw [if_pos same]
    cases found : object.named? name with
    | none =>
      have spelling : object.spelling? name = none := by rw [spelling?_eq_named?, found]; rfl
      rw [Object.replaceSlot, spelling, named?_congr object same, found]
      rfl
    | some entry =>
      have spelling : object.spelling? name = some entry.1 := by rw [spelling?_eq_named?, found]; rfl
      have sameKey := (regular.named?_eq_some_iff.mp found).2
      refine (regular.replaceSlot name value).named?_eq_some_iff.mpr ⟨?_, sameKey.trans same.symm⟩
      rw [Object.replaceSlot, spelling]
      exact mem_insert_self
  · rw [if_neg same]
    exact regular.named?_of_edits (.replace value .refl) same

/-- Writes under one name that leave the entry under it have changed nothing. -/
theorem eq_of_edits (regular : object.Regular) (edits : Edits name object after)
    (same : after.named? name = object.named? name) : after = object := by
  apply (regular.of_edits edits).ext regular
  intro other
  by_cases isName : Text.fold other = Text.fold name
  · rw [named?_congr after isName, same, named?_congr object isName]
  · exact regular.named?_of_edits edits isName

/-! ### Writing twice -/

theorem setAttribute_setAttribute (regular : object.Regular) :
    Object.setAttribute (object.setAttribute name value) name second = object.setAttribute name second := by
  apply ((regular.setAttribute name value).setAttribute name second).ext
    (regular.setAttribute name second)
  intro other
  by_cases same : Text.fold other = Text.fold name <;>
    simp [(regular.setAttribute name value).named?_setAttribute, regular.named?_setAttribute, same]

theorem removeAttribute_replaceSlot (regular : object.Regular) :
    Object.removeAttribute (object.replaceSlot name value) name = object.removeAttribute name := by
  apply ((regular.replaceSlot name value).removeAttribute name).ext (regular.removeAttribute name)
  intro other
  by_cases same : Text.fold other = Text.fold name <;>
    simp [(regular.replaceSlot name value).named?_removeAttribute, regular.named?_replaceSlot,
      regular.named?_removeAttribute, same]

/-- What is removed already need not be removed. -/
theorem removeAttribute_of_absent (regular : object.Regular) (absent : object.attribute? name = none) :
    object.removeAttribute name = object := by
  apply (regular.removeAttribute name).ext regular
  intro other
  rw [regular.attribute?_eq_named?, Option.map_eq_none_iff] at absent
  rw [regular.named?_removeAttribute]
  split
  next same => rw [named?_congr object same, absent]
  · rfl

/-- What is there already need not be put there. -/
theorem replaceSlot_of_there (regular : object.Regular) (there : object.attribute? name = some value) :
    object.replaceSlot name value = object := by
  apply (regular.replaceSlot name value).ext regular
  intro other
  rw [regular.attribute?_eq_named?, Option.map_eq_some_iff] at there
  obtain ⟨entry, found, rfl⟩ := there
  rw [regular.named?_replaceSlot]
  split
  next same =>
    rw [named?_congr object same, found]
    rfl
  · rfl

/-- Removing takes back whatever has been written where nothing was. -/
theorem removeAttribute_of_edits (regular : object.Regular) (edits : Edits name object after)
    (absent : object.attribute? name = none) : after.removeAttribute name = object := by
  apply regular.eq_of_edits (.remove edits)
  rw [regular.attribute?_eq_named?, Option.map_eq_none_iff] at absent
  rw [(regular.of_edits edits).named?_removeAttribute, if_pos rfl, absent]

/-- A value that has been replaced is put back. -/
theorem replaceSlot_replaceSlot_of_there (regular : object.Regular)
    (there : object.attribute? name = some value) :
    Object.replaceSlot (object.replaceSlot name second) name value = object := by
  apply regular.eq_of_edits (.replace value (.replace second .refl))
  rw [regular.attribute?_eq_named?, Option.map_eq_some_iff] at there
  obtain ⟨entry, found, rfl⟩ := there
  rw [(regular.replaceSlot name second).named?_replaceSlot, if_pos rfl, regular.named?_replaceSlot,
    if_pos rfl, found]
  rfl

/-- Writes where nothing was leave what the object holds. -/
theorem holdsAny_of_edits (regular : object.Regular) (edits : Edits name object after)
    (absent : object.attribute? name = none) (holds : object.holdsAny = true) :
    after.holdsAny = true := by
  obtain ⟨other, entry, found, present⟩ := regular.holdsAny_iff.mp holds
  rw [regular.attribute?_eq_named?, Option.map_eq_none_iff] at absent
  have apart : Text.fold other ≠ Text.fold name := fun same => by
    rw [named?_congr object same, absent] at found
    cases found
  rw [← regular.named?_of_edits edits apart] at found
  exact (regular.of_edits edits).holdsAny_iff.mpr ⟨other, entry, found, present⟩

theorem removeAttribute_removeAttribute (regular : object.Regular) :
    Object.removeAttribute (object.removeAttribute name) name = object.removeAttribute name :=
  (regular.removeAttribute name).removeAttribute_of_absent
    (attribute?_removeAttribute_self regular.unambiguous rfl)

end Regular

end Object

end Scim
