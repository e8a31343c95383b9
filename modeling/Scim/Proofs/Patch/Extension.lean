import Scim.Proofs.Patch.Container
import Scim.Proofs.Patch.Steps
import Scim.Proofs.Resource.Entries

/-!
# Writing in the object of an extension

The attributes of an extension stand in an object of their own, which is made for the first value
that is written and dropped with the last one. A change to an attribute therefore works on the object
that is there, or on an empty one, and what becomes of the resource is told by what it has left of
that object. This holds of any view: `schemas` is rewritten only where it is a list, so that an
extension under that very name would not be touched either.
-/

namespace Scim

namespace Object

variable {urn : String} {resource before between after : Object}

/-- Only the entry of an extension and the list of extensions have changed. -/
structure ChangesExtension (urn : String) (before after : Object) : Prop where
  unambiguous : after.Unambiguous
  others : ∀ other, Text.fold other ≠ Text.fold urn → Text.fold other ≠ Text.fold "schemas" →
    after.attribute? other = before.attribute? other

namespace ChangesExtension

theorem refl (unambiguous : before.Unambiguous) : ChangesExtension urn before before :=
  ⟨unambiguous, fun _ _ _ => rfl⟩

theorem ofEntry (changes : ChangesOnly urn before after) : ChangesExtension urn before after :=
  ⟨changes.unambiguous, fun other apart _ => changes.others other apart⟩

theorem ofList (changes : ChangesOnly "schemas" before after) : ChangesExtension urn before after :=
  ⟨changes.unambiguous, fun other _ apart => changes.others other apart⟩

theorem trans (first : ChangesExtension urn before between)
    (second : ChangesExtension urn between after) : ChangesExtension urn before after :=
  ⟨second.unambiguous, fun other apart notSchemas =>
    (second.others other apart notSchemas).trans (first.others other apart notSchemas)⟩

end ChangesExtension

/-- An object that holds something under a name holds something. -/
theorem holdsAny_of_has {name : String} (present : resource.has name = true) :
    resource.holdsAny = true := by
  unfold has at present
  cases stored : resource.attribute? name with
  | none =>
    rw [stored] at present
    cases present
  | some value =>
    rw [stored] at present
    obtain ⟨key, member, _⟩ := mem_of_attribute? stored
    exact Json.isPresent_object_iff.mpr ⟨(key, value), member, present⟩

end Object

open Object

section Extension

variable {urn : String} {resource before after container : Object}

/-! ### The list of extensions -/

theorem changeSchemas_edits (resource : Object) (change : List Json → List Json) :
    Edits "schemas" resource (changeSchemas resource change) := by
  unfold changeSchemas
  split
  · exact .replace _ .refl
  · exact .refl

/-- Nothing but the list is rewritten. -/
theorem mem_changeSchemas {change : List Json → List Json} {entry : String × Json}
    (member : entry ∈ changeSchemas resource change) :
    entry ∈ resource ∨ entry.1 ∈ resource.keys ∧ Text.sameName entry.1 "schemas" = true := by
  unfold changeSchemas at member
  split at member
  · rcases mem_replaceSlot member with ⟨key, there, same, rfl⟩ | old
    · exact .inr ⟨there, Text.sameName_iff.mpr same⟩
    · exact .inl old
  · exact .inl member

/-- What is no list stays, also under the name of the list. -/
theorem attribute?_changeSchemas (unambiguous : resource.Unambiguous)
    (notList : ∀ items, resource.attribute? urn ≠ some (.array items))
    (change : List Json → List Json) :
    Object.attribute? (changeSchemas resource change) urn = resource.attribute? urn := by
  by_cases isSchemas : Text.fold urn = Text.fold "schemas"
  · -- Then there is no list that could be changed.
    have unchanged : changeSchemas resource change = resource := by
      unfold changeSchemas
      split
      next items listed =>
        have read := attribute?_congr_name unambiguous isSchemas
        rw [slot?_eq_attribute? unambiguous, ← read] at listed
        exact absurd listed (notList items)
      · rfl
    rw [unchanged]
  · exact ((changeSchemas_edits resource change).changesOnly unambiguous).others urn isSchemas

/-! ### Making and dropping the object -/

/-- A new extension object is empty. -/
theorem createExtension_spec (urn : String) (unambiguous : resource.Unambiguous) :
    ChangesExtension urn resource (createExtension urn resource) ∧
      Object.attribute? (createExtension urn resource) urn = some (.object []) := by
  have made := unambiguous.setAttribute urn (.object [])
  have stored := attribute?_setAttribute resource urn (.object [])
  have listed := (changeSchemas_edits (resource.setAttribute urn (.object [])) fun urns =>
    if urns.any (isUrn urn) then urns else urns ++ [.string urn]).changesOnly made
  constructor
  · exact .trans (.ofEntry (.setAttribute unambiguous)) (.ofList listed)
  · refine (attribute?_changeSchemas made (fun items isList => ?_) _).trans stored
    rw [stored] at isList
    cases isList

/-- Removing an extension leaves nothing under its URN. -/
theorem removeEntry_spec (urn : String) (unambiguous : resource.Unambiguous) :
    ChangesExtension urn resource (unregisterExtension (resource.removeAttribute urn) urn) ∧
      Object.attribute? (unregisterExtension (resource.removeAttribute urn) urn) urn = none := by
  have removed := unambiguous.removeAttribute urn
  have gone : Object.attribute? (resource.removeAttribute urn) urn = none :=
    attribute?_removeAttribute_self unambiguous rfl
  have unlisted := (changeSchemas_edits (resource.removeAttribute urn) fun urns =>
    urns.filter (!isUrn urn ·)).changesOnly removed
  constructor
  · exact .trans (.ofEntry (.removeAttribute unambiguous)) (.ofList unlisted)
  · refine (attribute?_changeSchemas removed (fun items isList => ?_) _).trans gone
    rw [gone] at isList
    cases isList

/-- An object that holds something stays where it is; one that holds nothing goes. -/
theorem tidyExtension_spec (unambiguous : resource.Unambiguous)
    (stored : resource.attribute? urn = some (.object container)) :
    ChangesExtension urn resource (tidyExtension resource urn) ∧
      Object.attribute? (tidyExtension resource urn) urn =
        if container.holdsAny then some (.object container) else none := by
  unfold tidyExtension
  rw [stored]
  by_cases present : container.holdsAny = true
  · have stays : (Json.object container).isPresent = true := present
    simp only [stays, present, if_true]
    exact ⟨.refl unambiguous, stored⟩
  · have goes : (Json.object container).isPresent = false := Bool.eq_false_iff.mpr present
    simp only [goes, present, Bool.false_eq_true, if_false]
    exact removeEntry_spec urn unambiguous

/-! ### A step in the object -/

/-- What counts as missing is no object. -/
theorem bind_object?_of_missing (missing : (before.attribute? urn).all Json.isNull = true) :
    (before.attribute? urn).bind Json.object? = none := by
  cases there : before.attribute? urn with
  | none => rfl
  | some value =>
    rw [there] at missing
    cases value with
    | null => rfl
    | _ => cases missing

/-- The object that a step works on: what stands under the URN, or an empty one made for it. -/
theorem enterExtension_spec (unambiguous : before.Unambiguous) {ready : Object}
    (isReady : (if (before.attribute? urn).all Json.isNull then createExtension urn before
      else before) = ready)
    (stored : ready.slot? urn = some (.object container)) :
    ChangesExtension urn before ready ∧ ready.attribute? urn = some (.object container) ∧
      container = ((before.attribute? urn).bind Json.object?).getD [] := by
  split at isReady
  next missing =>
    subst isReady
    obtain ⟨changes, made⟩ := createExtension_spec urn unambiguous
    rw [slot?_eq_attribute? changes.unambiguous] at stored
    refine ⟨changes, stored, ?_⟩
    rw [made] at stored
    cases stored
    rw [bind_object?_of_missing missing]
    rfl
  next _ =>
    subst isReady
    rw [slot?_eq_attribute? unambiguous] at stored
    refine ⟨.refl unambiguous, stored, ?_⟩
    rw [stored]
    rfl

/-- **A step in an extension** takes what the extension holds to something else, and that is what the
extension holds afterwards. -/
theorem leaveExtension_spec (unambiguous : before.Unambiguous) {ready : Object}
    (isReady : (if (before.attribute? urn).all Json.isNull then createExtension urn before
      else before) = ready)
    (stored : ready.slot? urn = some (.object container)) (changed : Object) :
    container = ((before.attribute? urn).bind Json.object?).getD [] ∧
      ChangesExtension urn before (tidyExtension (ready.replaceSlot urn (.object changed)) urn) ∧
      Object.attribute? (tidyExtension (ready.replaceSlot urn (.object changed)) urn) urn =
        if changed.holdsAny then some (.object changed) else none := by
  obtain ⟨entered, there, same⟩ := enterExtension_spec unambiguous isReady stored
  -- What the step has left is put in the place of what it started from.
  have put : ChangesOnly urn ready (ready.replaceSlot urn (.object changed)) :=
    .replaceSlot entered.unambiguous
  have read : Object.attribute? (ready.replaceSlot urn (.object changed)) urn =
      some (.object changed) := attribute?_replaceSlot_self entered.unambiguous there
  obtain ⟨tidied, outcome⟩ := tidyExtension_spec put.unambiguous read
  exact ⟨same, entered.trans (.trans (.ofEntry put) tidied), outcome⟩

end Extension

/-! ### A change to a target -/

/-- What has become of a resource if a change has left `changed` of the object that holds the
attribute. -/
def Resolved.Leaves (resolved : Resolved) (before changed after : Object) : Prop :=
  match resolved.member.key? with
  | none => after = changed
  | some urn => ChangesExtension urn before after ∧
      after.attribute? urn = if changed.holdsAny then some (.object changed) else none

/-- A value that is there is read where the change has left it. -/
theorem Resolved.Leaves.value?_of_has {resolved : Resolved} {before changed after : Object}
    (leaves : resolved.Leaves before changed after)
    (present : changed.has resolved.definition.name = true) :
    resolved.value? after = changed.attribute? resolved.definition.name := by
  unfold Leaves at leaves
  unfold Resolved.value? Resolved.container?
  cases key : resolved.member.key? with
  | none =>
    rw [key] at leaves
    obtain rfl : after = changed := leaves
    rfl
  | some urn =>
    rw [key] at leaves
    simp only [leaves.2, holdsAny_of_has present, if_true]
    rfl

/-- What is read afterwards is what the change has left, unless the object has been dropped. -/
theorem Resolved.Leaves.value?_cases {resolved : Resolved} {before changed after : Object}
    (leaves : resolved.Leaves before changed after) :
    resolved.value? after = changed.attribute? resolved.definition.name ∨
      resolved.value? after = none := by
  unfold Leaves at leaves
  rw [resolved.value?_eq]
  unfold Resolved.container?
  cases key : resolved.member.key? with
  | none =>
    rw [key] at leaves
    obtain rfl : after = changed := leaves
    exact .inl rfl
  | some urn =>
    rw [key] at leaves
    simp only [leaves.2]
    split
    · exact .inl rfl
    · exact .inr rfl

/-- **A change to a target** that succeeds has passed its checks. It changes nothing where there is no
object to hold the attribute, or it rewrites that object and leaves it in the resource. -/
theorem applyTarget_eq_ok {target : Target} {change : Change} {resolved : Resolved}
    {before after : Object} (place : target.container = resolved.member.key?)
    (unambiguous : before.Unambiguous) (applied : applyTarget target change before = .ok () after) :
    target.checkFilter change = .ok () ∧ target.checkValue change = .ok () ∧
      (target.filter = none ∧ change.value? = none ∧ resolved.container? before = none ∧ before = after ∨
        ∃ changed,
          applyInContainer target change ((resolved.container? before).getD []) = .ok () changed ∧
            resolved.Leaves before changed after) := by
  obtain ⟨filterOk, valueOk, applies⟩ := applyTarget_applies applied
  refine ⟨filterOk, valueOk, ?_⟩
  unfold Resolved.Leaves Resolved.container?
  rw [← place]
  cases applies with
  | atTop atTop applied =>
    rw [atTop]
    exact .inr ⟨after, applied, rfl⟩
  | skipped isKey unfiltered nothing missing =>
    rw [isKey]
    exact .inl ⟨unfiltered, nothing, bind_object?_of_missing missing, rfl⟩
  | inside isKey isReady _ stored stepped =>
    obtain ⟨rfl, leaves⟩ := leaveExtension_spec unambiguous isReady stored _
    rw [isKey]
    exact .inr ⟨_, stepped, leaves⟩

end Scim
