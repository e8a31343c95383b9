import Scim.Proofs.Resource.Entries

/-!
# Writing under one name

Whatever is written to an attribute, by however many writes, is written under one name. The writes of
one name leave every other entry as it is, its key with it, and lead from objects without ambiguous
names to such objects.
-/

namespace Scim.Object

variable {object before between after : Object} {name key : String} {names more : List String}
  {value : Json} {entry : String × Json}

/-- What can be made of an object by writes under one name. -/
inductive Edits (name : String) (before : Object) : Object → Prop
  | refl : Edits name before before
  | set {after : Object} (value : Json) :
    Edits name before after → Edits name before (after.setAttribute name value)
  | remove {after : Object} : Edits name before after → Edits name before (after.removeAttribute name)
  | replace {after : Object} (value : Json) :
    Edits name before after → Edits name before (after.replaceSlot name value)

theorem Edits.changesOnly (unambiguous : before.Unambiguous) (edits : Edits name before after) :
    ChangesOnly name before after := by
  induction edits with
  | refl => exact .refl unambiguous
  | set _ _ ih => exact ih.trans (.setAttribute ih.unambiguous)
  | remove _ ih => exact ih.trans (.removeAttribute ih.unambiguous)
  | replace _ _ ih => exact ih.trans (.replaceSlot ih.unambiguous)

/-! ### Entries that stay -/

/-- Two objects have the same entries, except for those that stand under one of the names. -/
def SameExcept (names : List String) (before after : Object) : Prop :=
  ∀ entry : String × Json, (∀ name ∈ names, Text.fold entry.1 ≠ Text.fold name) →
    (entry ∈ after ↔ entry ∈ before)

namespace SameExcept

theorem refl (names : List String) (object : Object) : SameExcept names object object :=
  fun _ _ => Iff.rfl

theorem trans (first : SameExcept names before between) (second : SameExcept names between after) :
    SameExcept names before after :=
  fun entry apart => (second entry apart).trans (first entry apart)

theorem mono (same : SameExcept names before after) (subset : names ⊆ more) :
    SameExcept more before after :=
  fun entry apart => same entry fun name member => apart name (subset member)

theorem insert (isName : Text.fold key = Text.fold name) :
    SameExcept [name] object (object.insert key value) := by
  intro entry apart
  have different : entry.1 ≠ key := by
    rintro rfl
    exact apart name List.mem_cons_self isName
  constructor
  · intro member
    rcases mem_insert member with rfl | old
    · exact absurd rfl different
    · exact old
  · intro member
    exact mem_insert_of_ne member different

theorem erase (isName : Text.fold key = Text.fold name) :
    SameExcept [name] object (object.erase key) := by
  intro entry apart
  have different : entry.1 ≠ key := by
    rintro rfl
    exact apart name List.mem_cons_self isName
  simp [Object.erase, different]

theorem removeAttribute (object : Object) (name : String) :
    SameExcept [name] object (object.removeAttribute name) := by
  unfold Object.removeAttribute
  cases spelling : object.spelling? name with
  | none => exact .refl _ object
  | some key => exact .erase (spelling?_eq_some spelling).2

theorem setAttribute (object : Object) (name : String) (value : Json) :
    SameExcept [name] object (object.setAttribute name value) := by
  unfold Object.setAttribute
  cases spelling : object.spelling? name with
  | none => exact .insert rfl
  | some key =>
    simp only []
    split
    · exact .insert rfl
    · exact .trans (.erase (spelling?_eq_some spelling).2) (.insert rfl)

theorem replaceSlot (object : Object) (name : String) (value : Json) :
    SameExcept [name] object (object.replaceSlot name value) := by
  unfold Object.replaceSlot
  cases spelling : object.spelling? name with
  | none => exact .refl _ object
  | some key => exact .insert (spelling?_eq_some spelling).2

end SameExcept

theorem Edits.sameExcept (edits : Edits name before after) : SameExcept [name] before after := by
  induction edits with
  | refl => exact .refl _ _
  | set value _ ih => exact ih.trans (.setAttribute _ name value)
  | remove _ ih => exact ih.trans (.removeAttribute _ name)
  | replace value _ ih => exact ih.trans (.replaceSlot _ name value)

end Scim.Object
