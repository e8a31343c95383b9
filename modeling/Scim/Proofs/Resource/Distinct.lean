import Scim.Proofs.Resource.Entries
import Scim.Proofs.View

/-!
# Values without ambiguous names

Where no object in a value has two keys that are the same up to case, neither has any object that is
stored in it, however deep.
-/

namespace Scim.Json

mutual

/-- Whether no object in a value has two keys that are the same up to case. -/
def isDistinct : Json → Bool
  | .array items => isDistinctItems items
  | .object entries => decide (Object.Distinct entries) && isDistinctEntries entries
  | _ => true

def isDistinctItems : List Json → Bool
  | [] => true
  | item :: rest => isDistinct item && isDistinctItems rest

def isDistinctEntries : Object → Bool
  | [] => true
  | (_, value) :: rest => isDistinct value && isDistinctEntries rest

end

theorem isDistinctItems_eq_all (items : List Json) : isDistinctItems items = items.all isDistinct := by
  induction items with
  | nil => rfl
  | cons item rest ih => rw [isDistinctItems, List.all_cons, ih]

theorem isDistinctEntries_eq_all (object : Object) :
    isDistinctEntries object = object.all fun entry => entry.2.isDistinct := by
  induction object with
  | nil => rfl
  | cons entry rest ih => rw [isDistinctEntries, List.all_cons, ih]

theorem isDistinct_array_iff {items : List Json} :
    isDistinct (.array items) = true ↔ ∀ item ∈ items, item.isDistinct = true := by
  rw [isDistinct, isDistinctItems_eq_all, List.all_eq_true]

theorem isDistinct_object_iff {object : Object} :
    isDistinct (.object object) = true ↔
      object.Distinct ∧ ∀ entry ∈ object, entry.2.isDistinct = true := by
  rw [isDistinct, isDistinctEntries_eq_all, Bool.and_eq_true, decide_eq_true_iff, List.all_eq_true]

variable {object : Object} {name : String} {value : Json}

theorem unambiguous_of_isDistinct (distinct : isDistinct (.object object) = true) :
    object.Unambiguous :=
  (isDistinct_object_iff.mp distinct).1.unambiguous

/-- What is stored in a value is no more ambiguous than the value. -/
theorem isDistinct_of_attribute? (distinct : isDistinct (.object object) = true)
    (stored : object.attribute? name = some value) : value.isDistinct = true := by
  obtain ⟨key, member, _⟩ := Object.mem_of_attribute? stored
  exact (isDistinct_object_iff.mp distinct).2 (key, value) member

/-- The object that holds an attribute is no more ambiguous than the resource. -/
theorem isDistinct_of_container? {resolved : Resolved} {container : Object}
    (distinct : isDistinct (.object object) = true)
    (found : resolved.container? object = some container) :
    isDistinct (.object container) = true := by
  rcases Resolved.container?_eq_some found with ⟨_, rfl⟩ | ⟨_, _, stored⟩
  · exact distinct
  · exact isDistinct_of_attribute? distinct stored

theorem isDistinct_of_value? {resolved : Resolved} (distinct : isDistinct (.object object) = true)
    (stored : resolved.value? object = some value) : value.isDistinct = true := by
  obtain ⟨container, found, stored⟩ := Option.bind_eq_some_iff.mp stored
  exact isDistinct_of_attribute? (isDistinct_of_container? distinct found) stored

theorem unambiguous_container (distinct : isDistinct (.object object) = true) (resolved : Resolved) :
    Object.Unambiguous ((resolved.container? object).getD []) := by
  cases found : resolved.container? object with
  | none => exact Object.unambiguous_nil
  | some container => exact unambiguous_of_isDistinct (isDistinct_of_container? distinct found)

end Scim.Json
