import Scim.Proofs.Resource.Edits
import Scim.Proofs.Resource.Keyed

/-!
# Entries under one name

A name may stand in an object under several spellings. What is read under it depends on these entries
and their order only, and so does what a write makes of them. The entries under all other names stay.
None of this needs the object to have one key for each name, only that its keys are in order.
-/

namespace Scim.Object

variable {object before after : Object} {name other key : String} {value : Json} {entry : String × Json}

/-- The entries that stand under a name, in all its spellings. -/
def under (object : Object) (name : String) : Object := object.filter (Text.sameName ·.1 name)

theorem mem_under_iff : entry ∈ object.under name ↔ entry ∈ object ∧ Text.fold entry.1 = Text.fold name := by
  rw [under, List.mem_filter, Text.sameName_iff]

theorem under_congr (object : Object) (same : Text.fold name = Text.fold other) :
    object.under name = object.under other := by
  simp [under, Text.sameName, same]

theorem under_cons_of_same {rest : Object} (same : Text.fold entry.1 = Text.fold name) :
    under (entry :: rest) name = entry :: under rest name :=
  List.filter_cons_of_pos (Text.sameName_iff.mpr same)

theorem under_cons_of_ne {rest : Object} (different : Text.fold entry.1 ≠ Text.fold name) :
    under (entry :: rest) name = under rest name :=
  List.filter_cons_of_neg fun same => different (Text.sameName_iff.mp same)

theorem Sorted.under (sorted : object.Sorted) (name : String) : Sorted (object.under name) :=
  List.Pairwise.sublist (List.filter_sublist.map _) sorted

/-- Objects with the same entries under every name are one object. -/
theorem Sorted.eq_of_under (sorted : before.Sorted) (sortedAfter : after.Sorted)
    (same : ∀ name, before.under name = after.under name) : before = after := by
  refine sorted.eq_of_mem_iff sortedAfter fun entry => ?_
  have inUnder : entry ∈ before.under entry.1 ↔ entry ∈ after.under entry.1 := by rw [same]
  simpa [mem_under_iff] using inUnder

/-! ### Reading -/

theorem spelling?_under : (object.under name).spelling? name = object.spelling? name := by
  simp [spelling?, under, List.find?_filter]

theorem get?_under (isName : Text.fold key = Text.fold name) :
    (object.under name).get? key = object.get? key := by
  have atKey (entry : String × Json) :
      decide (Text.sameName entry.1 name = true ∧ (entry.1 == key) = true) = (entry.1 == key) := by
    by_cases equal : entry.1 = key <;> simp [equal, Text.sameName_iff, isName]
  rw [get?, under, List.find?_filter, get?]
  exact congrArg (fun is => (object.find? is).map (·.2)) (funext atKey)

theorem attribute?_under : (object.under name).attribute? name = object.attribute? name := by
  rw [attribute?, get?_under rfl, attribute?]
  simp [under, List.find?_filter]

theorem slot?_under : (object.under name).slot? name = object.slot? name := by
  rw [slot?, spelling?_under, slot?]
  cases spelling : object.spelling? name with
  | none => rfl
  | some key => exact get?_under (spelling?_eq_some spelling).2

theorem has_under : Object.has (object.under name) name = object.has name := by
  rw [has, attribute?_under, has]

/-! ### Writing -/

theorem under_insert (sorted : object.Sorted) (isName : Text.fold key = Text.fold name) :
    (object.insert key value).under name = Object.insert key value (object.under name) := by
  have put {rest : Object} : under ((key, value) :: rest) name = (key, value) :: under rest name :=
    under_cons_of_same isName
  induction object with
  | nil => exact put
  | cons head rest ih =>
    obtain ⟨below, sortedRest⟩ := List.pairwise_cons.mp sorted
    rw [insert]
    -- The key takes the place of the head, goes in front of it, or goes further back.
    split
    next isKey => rw [put, under_cons_of_same (isKey ▸ isName), insert, if_pos isKey]
    next different =>
      split
      next less =>
        -- The head may have another name, but all that follows comes behind the key as well.
        have first : ∀ other ∈ keys (under (head :: rest) name), key < other := by
          intro other member
          rcases List.mem_cons.mp ((List.filter_sublist.map _).subset member) with rfl | behind
          · exact less
          · exact String.lt_trans less (below other behind)
        rw [put, insert_of_forall_gt first]
      next notLess =>
        by_cases same : Text.fold head.1 = Text.fold name
        · rw [under_cons_of_same same, ih sortedRest, under_cons_of_same same, insert, if_neg different,
            if_neg notLess]
        · rw [under_cons_of_ne same, ih sortedRest, under_cons_of_ne same]

theorem under_erase (key : String) : (object.erase key).under name = Object.erase (object.under name) key := by
  rw [under, Object.erase, under, Object.erase, List.filter_filter, List.filter_filter]
  simp only [Bool.and_comm]

theorem under_setAttribute (sorted : object.Sorted) (name : String) (value : Json) :
    under (object.setAttribute name value) name = Object.setAttribute (object.under name) name value := by
  rw [setAttribute, setAttribute, spelling?_under]
  cases spelling : object.spelling? name with
  | none => exact under_insert sorted rfl
  | some key =>
    simp only []
    split
    · exact under_insert sorted rfl
    · rw [under_insert (sorted.erase key) rfl, under_erase]

theorem under_removeAttribute (object : Object) (name : String) :
    under (object.removeAttribute name) name = Object.removeAttribute (object.under name) name := by
  rw [removeAttribute, removeAttribute, spelling?_under]
  cases object.spelling? name with
  | none => rfl
  | some key => exact under_erase key

theorem under_replaceSlot (sorted : object.Sorted) (name : String) (value : Json) :
    under (object.replaceSlot name value) name = Object.replaceSlot (object.under name) name value := by
  rw [replaceSlot, replaceSlot, spelling?_under]
  cases spelling : object.spelling? name with
  | none => rfl
  | some key => exact under_insert sorted (spelling?_eq_some spelling).2

/-- Writes under one name leave the entries under all other names. -/
theorem under_of_edits (sorted : before.Sorted) (edits : Edits name before after)
    (apart : Text.fold other ≠ Text.fold name) : after.under other = before.under other := by
  refine ((edits.sorted sorted).under other).eq_of_mem_iff (sorted.under other) fun entry => ?_
  rw [mem_under_iff, mem_under_iff]
  refine and_congr_left fun isOther => edits.sameExcept entry fun written member => ?_
  rw [List.mem_singleton.mp member, isOther]
  exact apart

end Scim.Object
