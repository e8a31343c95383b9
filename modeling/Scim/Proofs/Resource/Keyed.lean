import Scim.Proofs.Resource.Distinct
import Scim.Proofs.Resource.Edits

/-!
# Values with one key for each name

In a document the entries of an object are in order, and no two of them have the same key. A name has
one key in it if they differ by more than case as well. Writing an attribute keeps both, whatever the
spelling that it finds, provided that the value that is written has one key for each name itself.
-/

namespace Scim

namespace Object

variable {object before after : Object} {name : String} {value : Json}

theorem Sorted.setAttribute (sorted : object.Sorted) : (object.setAttribute name value).Sorted := by
  unfold Object.setAttribute
  split
  · split
    · exact sorted.insert _ _
    · exact (sorted.erase _).insert _ _
  · exact sorted.insert _ _

theorem Sorted.removeAttribute (sorted : object.Sorted) : (object.removeAttribute name).Sorted := by
  unfold Object.removeAttribute
  split
  · exact sorted.erase _
  · exact sorted

theorem Sorted.replaceSlot (sorted : object.Sorted) : (object.replaceSlot name value).Sorted := by
  unfold Object.replaceSlot
  split
  · exact sorted.insert _ _
  · exact sorted

theorem Edits.sorted (edits : Edits name before after) (sorted : before.Sorted) : after.Sorted := by
  induction edits with
  | refl => exact sorted
  | set _ _ ih => exact ih.setAttribute
  | remove _ ih => exact ih.removeAttribute
  | replace _ _ ih => exact ih.replaceSlot

/-- Entries in order have different keys, so that one key for each name keeps the names apart. -/
theorem Sorted.distinct (sorted : object.Sorted) (unambiguous : object.Unambiguous) :
    object.Distinct := by
  refine List.Pairwise.imp_of_mem (fun {key other} member memberOther less same => ?_) sorted
  exact String.ne_of_lt less (unambiguous key member other memberOther same)

end Object

namespace Json

open Object

variable {object before after : Object} {name : String} {value : Json}

/-- All objects in a value have their entries in order, and one key for each name. -/
def IsKeyed (value : Json) : Prop := value.Ordered ∧ value.isDistinct = true

theorem isKeyed_of_isScalar (scalar : value.isScalar = true) : value.IsKeyed := by
  cases value with
  | array items => cases scalar
  | object entries => cases scalar
  | _ => exact ⟨trivial, rfl⟩

theorem isKeyed_array_iff {items : List Json} :
    IsKeyed (.array items) ↔ ∀ item ∈ items, item.IsKeyed := by
  rw [IsKeyed, ordered_array_iff, isDistinct_array_iff]
  exact forall₂_and.symm

theorem isKeyed_object_iff :
    IsKeyed (.object object) ↔
      object.Sorted ∧ object.Distinct ∧ ∀ entry ∈ object, entry.2.IsKeyed := by
  rw [IsKeyed, ordered_object_iff, isDistinct_object_iff]
  unfold IsKeyed
  rw [forall₂_and]
  tauto

theorem isKeyed_empty : IsKeyed (.object []) := ⟨⟨List.Pairwise.nil, trivial⟩, rfl⟩

namespace IsKeyed

theorem of_mem {entry : String × Json} (keyed : IsKeyed (.object object)) (member : entry ∈ object) :
    entry.2.IsKeyed :=
  (isKeyed_object_iff.mp keyed).2.2 entry member

theorem of_slot? (keyed : IsKeyed (.object object)) (stored : object.slot? name = some value) :
    value.IsKeyed := by
  obtain ⟨_, member, _⟩ := mem_of_slot? stored
  exact keyed.of_mem member

theorem of_container? {resolved : Resolved} {fields : Object} (keyed : IsKeyed (.object object))
    (found : resolved.container? object = some fields) : IsKeyed (.object fields) := by
  rcases Resolved.container?_eq_some found with ⟨_, rfl⟩ | ⟨_, _, stored⟩
  · exact keyed
  · obtain ⟨_, member, _⟩ := mem_of_attribute? stored
    exact keyed.of_mem member

/-- The object that holds an attribute, or an empty one where there is none. -/
theorem container (keyed : IsKeyed (.object object)) (resolved : Resolved) :
    IsKeyed (.object ((resolved.container? object).getD [])) := by
  cases found : resolved.container? object with
  | none => exact isKeyed_empty
  | some fields => exact keyed.of_container? found

/-- Writes under one name keep one key for each name if they put in values that have. -/
theorem of_edits (keyed : IsKeyed (.object before)) (edits : Edits name before after)
    (entries : ∀ entry ∈ after, entry ∈ before ∨ entry.2.IsKeyed) : IsKeyed (.object after) := by
  obtain ⟨sorted, distinct, stored⟩ := isKeyed_object_iff.mp keyed
  have sortedAfter := edits.sorted sorted
  have unambiguousAfter := (edits.changesOnly distinct.unambiguous).unambiguous
  refine isKeyed_object_iff.mpr ⟨sortedAfter, sortedAfter.distinct unambiguousAfter, ?_⟩
  intro entry member
  rcases entries entry member with old | new
  · exact stored entry old
  · exact new

theorem setAttribute (keyed : IsKeyed (.object object)) (name : String) (keyedValue : value.IsKeyed) :
    IsKeyed (.object (object.setAttribute name value)) := by
  refine keyed.of_edits (.set value .refl) fun entry member => ?_
  rcases mem_setAttribute member with rfl | old
  · exact .inr keyedValue
  · exact .inl old

theorem removeAttribute (keyed : IsKeyed (.object object)) (name : String) :
    IsKeyed (.object (object.removeAttribute name)) :=
  keyed.of_edits (.remove .refl) fun _ member => .inl (mem_removeAttribute member)

theorem replaceSlot (keyed : IsKeyed (.object object)) (name : String) (keyedValue : value.IsKeyed) :
    IsKeyed (.object (object.replaceSlot name value)) := by
  refine keyed.of_edits (.replace value .refl) fun entry member => ?_
  rcases mem_replaceSlot member with ⟨_, _, _, rfl⟩ | old
  · exact .inr keyedValue
  · exact .inl old

end IsKeyed

/-! ### Equal values -/

theorem keys_eq_of_sameEntries {entries others : Object} (same : sameEntries entries others = true) :
    entries.keys = others.keys := by
  induction entries generalizing others with
  | nil =>
    cases others with
    | nil => rfl
    | cons entry rest => cases same
  | cons entry rest ih =>
    cases others with
    | nil => cases same
    | cons other restOther =>
      simp only [sameEntries, Bool.and_eq_true, beq_iff_eq] at same
      exact congrArg₂ List.cons same.1.1 (ih same.2)

mutual

/-- Equal values have the same keys everywhere. -/
theorem isDistinct_eq_of_same : ∀ a b : Json, a.same b = true → a.isDistinct = b.isDistinct
  | .array items, .array others, same => isDistinctItems_eq_of_same items others same
  | .object entries, .object others, same => by
    have keys : (Distinct entries) = Distinct others := by
      unfold Distinct
      rw [keys_eq_of_sameEntries same]
    simp only [isDistinct, keys, isDistinctEntries_eq_of_same entries others same]
  | .null, .null, _ | .bool _, .bool _, _ | .number _, .number _, _ | .string _, .string _, _ => rfl

theorem isDistinctItems_eq_of_same :
    ∀ items others : List Json, sameItems items others = true →
      isDistinctItems items = isDistinctItems others
  | [], [], _ => rfl
  | a :: as, b :: bs, same => by
    obtain ⟨head, tail⟩ := Bool.and_eq_true_iff.mp same
    rw [isDistinctItems, isDistinctItems, isDistinct_eq_of_same a b head,
      isDistinctItems_eq_of_same as bs tail]

theorem isDistinctEntries_eq_of_same :
    ∀ entries others : Object, sameEntries entries others = true →
      isDistinctEntries entries = isDistinctEntries others
  | [], [], _ => rfl
  | (_, a) :: as, (_, b) :: bs, same => by
    obtain ⟨head, tail⟩ := Bool.and_eq_true_iff.mp same
    rw [isDistinctEntries, isDistinctEntries, isDistinct_eq_of_same a b (Bool.and_eq_true_iff.mp head).2,
      isDistinctEntries_eq_of_same as bs tail]

end

mutual

/-- Equal values hold something together. -/
theorem isPresent_eq_of_same : ∀ a b : Json, a.same b = true → a.isPresent = b.isPresent
  | .array items, .array others, same => anyItemPresent_eq_of_same items others same
  | .object entries, .object others, same => anyEntryPresent_eq_of_same entries others same
  | .string text, .string other, same => by rw [eq_of_beq same]
  | .null, .null, _ | .bool _, .bool _, _ | .number _, .number _, _ => rfl

theorem anyItemPresent_eq_of_same :
    ∀ items others : List Json, sameItems items others = true →
      anyItemPresent items = anyItemPresent others
  | [], [], _ => rfl
  | a :: as, b :: bs, same => by
    obtain ⟨head, tail⟩ := Bool.and_eq_true_iff.mp same
    rw [anyItemPresent, anyItemPresent, isPresent_eq_of_same a b head,
      anyItemPresent_eq_of_same as bs tail]

theorem anyEntryPresent_eq_of_same :
    ∀ entries others : Object, sameEntries entries others = true →
      anyEntryPresent entries = anyEntryPresent others
  | [], [], _ => rfl
  | (_, a) :: as, (_, b) :: bs, same => by
    obtain ⟨head, tail⟩ := Bool.and_eq_true_iff.mp same
    rw [anyEntryPresent, anyEntryPresent, isPresent_eq_of_same a b (Bool.and_eq_true_iff.mp head).2,
      anyEntryPresent_eq_of_same as bs tail]

end

end Json

end Scim
