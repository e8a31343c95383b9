import Scim.Proofs.Resource.Entries

/-!
# Values without hollow parts

A value that holds something may still have parts that hold nothing: an empty object in an array, a
`null` beside a text. A solid value has none, at any level. Taking entries and items away leaves a value
solid, but what they are taken from may be left with nothing in it, and has to go as well.
-/

namespace Scim

open Object

namespace Json

mutual

/-- Whether everything in a value, at every level, holds something. -/
def isSolid : Json → Bool
  | .array items => isSolidItems items
  | .object entries => isSolidEntries entries
  | .null | .bool _ | .number _ | .string _ => true

def isSolidItems : List Json → Bool
  | [] => true
  | item :: rest => item.isPresent && item.isSolid && isSolidItems rest

def isSolidEntries : Object → Bool
  | [] => true
  | (_, value) :: rest => value.isPresent && value.isSolid && isSolidEntries rest

end

/-- A value that holds something, and so does everything in it. -/
def IsFilled (value : Json) : Prop := value.isPresent = true ∧ value.isSolid = true

instance (value : Json) : Decidable value.IsFilled :=
  inferInstanceAs (Decidable (value.isPresent = true ∧ value.isSolid = true))

variable {items : List Json} {entries : Object} {name : String}

theorem isSolid_array_iff : isSolid (.array items) = true ↔ ∀ item ∈ items, item.IsFilled := by
  rw [isSolid]
  induction items with
  | nil => simp [isSolidItems]
  | cons item rest ih =>
    rw [isSolidItems, Bool.and_eq_true, Bool.and_eq_true, ih, List.forall_mem_cons, IsFilled]

theorem isSolid_object_iff : isSolid (.object entries) = true ↔ ∀ entry ∈ entries, entry.2.IsFilled := by
  rw [isSolid]
  induction entries with
  | nil => simp [isSolidEntries]
  | cons entry rest ih =>
    rw [isSolidEntries, Bool.and_eq_true, Bool.and_eq_true, ih, List.forall_mem_cons, IsFilled]

/-- An array is filled by items that are. -/
theorem isFilled_array (someItems : items ≠ []) (each : ∀ item ∈ items, item.IsFilled) :
    IsFilled (.array items) := by
  obtain ⟨item, member⟩ := List.exists_mem_of_ne_nil items someItems
  exact ⟨isPresent_array_iff.mpr ⟨item, member, (each item member).1⟩, isSolid_array_iff.mpr each⟩

theorem isSolid_removeAttribute (solid : isSolid (.object entries) = true) :
    isSolid (.object (entries.removeAttribute name)) = true :=
  isSolid_object_iff.mpr fun entry member => isSolid_object_iff.mp solid entry (mem_removeAttribute member)

end Json

/-- Every entry of a resource is filled, apart from `schemas`, which lists what there is. -/
def Object.IsSolid (resource : Object) : Prop :=
  ∀ entry ∈ resource, Text.sameName entry.1 "schemas" = false → entry.2.IsFilled

instance (resource : Object) : Decidable resource.IsSolid :=
  inferInstanceAs
    (Decidable (∀ entry ∈ resource, Text.sameName entry.1 "schemas" = false → entry.2.IsFilled))

theorem Object.IsSolid.slot {resource : Object} {name : String} {value : Json}
    (solid : resource.IsSolid) (notSchemas : Text.fold name ≠ Text.fold "schemas")
    (stored : resource.slot? name = some value) : value.IsFilled := by
  obtain ⟨key, member, same⟩ := mem_of_slot? stored
  refine solid (key, value) member (Bool.eq_false_iff.mpr fun isSchemas => notSchemas ?_)
  exact same.symm.trans (Text.sameName_iff.mp isSchemas)

end Scim
