import Scim.Patch.Apply
import Scim.Proofs.Except
import Scim.Proofs.Resource.Edits

/-!
# Writing to the object that holds an attribute

A change that succeeds has been allowed by the mutability of the attribute it is made to, and
touches no other attribute. This holds for whole attributes, for sub-attributes and for elements
alike.
-/

namespace Scim

open Object

variable {name : String} {container : Object}

/-! ### Rewriting one attribute -/

theorem addToCollection_edits (name : String) (value : Json) (container : Object) :
    Edits name container (addToCollection name value container) := by
  simp only [addToCollection]
  split
  · exact .remove .refl
  · exact .set _ (.remove .refl)

theorem replaceCollection_edits (name : String) (value : Json) (container : Object) :
    Edits name container (replaceCollection name value container) := by
  unfold replaceCollection
  split
  · exact .set _ .refl
  · exact .remove .refl

theorem mergeInto_edits (definition : Attribute) (entries container : Object) :
    Edits definition.name container (mergeInto definition entries container) := by
  simp only [mergeInto]
  split
  · exact .set _ (.remove .refl)
  · exact .remove .refl

theorem storeItems_edits (name : String) (items : List Json) (container : Object) :
    Edits name container (storeItems name items container) := by
  unfold storeItems
  split
  · exact .remove .refl
  · exact .replace _ .refl

theorem ensureObject_edits (name : String) (container : Object) :
    Edits name container (ensureObject name container) := by
  unfold ensureObject
  split
  · exact .refl
  · exact .set _ .refl

theorem setSub_edits (name : String) (sub : Attribute) (value : Json) (container : Object) :
    Edits name container (setSub name sub value container) := by
  have ensured := ensureObject_edits name container
  simp only [setSub]
  split
  · exact .replace _ ensured
  · exact ensured

theorem clearSub_edits (name : String) (sub : Attribute) (container : Object) :
    Edits name container (clearSub name sub container) := by
  unfold clearSub
  split
  · simp only []
    split
    · exact .replace _ .refl
    · exact .remove .refl
  · exact .refl

theorem changeSubOfValue_edits (name : String) (sub : Attribute) (change : Change) (container : Object) :
    Edits name container (changeSubOfValue name sub change container) := by
  unfold changeSubOfValue
  split
  · exact setSub_edits name sub _ container
  · exact clearSub_edits name sub container

theorem changeSub_edits (change : Change) (sub : Attribute) (element : Object) :
    Edits sub.name element (changeSub change sub element) := by
  unfold changeSub
  split
  · exact .set _ .refl
  · exact .remove .refl

/-! ### What is read afterwards -/

/-- A collection that is put back is there unless it is empty. -/
theorem attribute?_storeItems (unambiguous : container.Unambiguous) {stored : Json}
    (there : container.attribute? name = some stored) (items : List Json) :
    Object.attribute? (storeItems name items container) name =
      if items.isEmpty then none else some (.array items) := by
  unfold storeItems
  split
  · exact attribute?_removeAttribute_self unambiguous rfl
  · exact attribute?_replaceSlot_self unambiguous there

/-- Only an array has elements. -/
theorem eq_array_of_storedElements {stored : Option Json} (someItems : storedElements stored ≠ []) :
    stored = some (.array (storedElements stored)) := by
  cases stored with
  | none => exact absurd rfl someItems
  | some value =>
    cases value with
    | array items => rfl
    | _ => exact absurd rfl someItems

theorem mem_storedItems_of_mem_storedElements {stored : Option Json} {item : Json}
    (member : item ∈ storedElements stored) : item ∈ storedItems stored := by
  rw [eq_array_of_storedElements (List.ne_nil_of_mem member)]
  exact member

/-- The object that is stored, or an empty one that is made where there is none. -/
theorem attribute?_ensureObject (name : String) (container : Object) :
    Object.attribute? (ensureObject name container) name =
      some (.object (((container.attribute? name).bind Json.object?).getD [])) := by
  unfold ensureObject
  split
  next parent stored =>
    rw [stored]
    rfl
  next noObject =>
    refine (attribute?_setAttribute container name (.object [])).trans ?_
    cases stored : container.attribute? name with
    | none => rfl
    | some value =>
      cases value with
      | object parent => exact absurd stored (noObject parent)
      | _ => rfl

/-- A sub-attribute is written into the object that there is, or has been made. -/
theorem attribute?_setSub (name : String) (unambiguous : container.Unambiguous) (sub : Attribute)
    (value : Json) :
    Object.attribute? (setSub name sub value container) name =
      some (.object (Object.setAttribute (((container.attribute? name).bind Json.object?).getD [])
        sub.name value)) := by
  have stored := attribute?_ensureObject name container
  have ensured := (ensureObject_edits name container).changesOnly unambiguous
  have slot := (slot?_eq_attribute? ensured.unambiguous).trans stored
  simp only [setSub, slot]
  exact attribute?_replaceSlot_self ensured.unambiguous stored

/-- Sub-attributes are changed in all elements if these are objects. -/
theorem changeSubOfAll_eq {change : Change} {sub : Attribute} {items changed : List Json}
    (complete : changeSubOfAll change sub items = (changed, true)) :
    ∃ elements : List Object, items = elements.map Json.object ∧
      changed = elements.map fun element => Json.object (changeSub change sub element) := by
  induction items generalizing changed with
  | nil =>
    cases complete
    exact ⟨[], rfl, rfl⟩
  | cons head rest ih =>
    cases head with
    | object element =>
      cases rewritten : changeSubOfAll change sub rest with
      | mk others all =>
        rw [changeSubOfAll, rewritten] at complete
        cases complete
        obtain ⟨elements, rfl, rfl⟩ := ih rewritten
        exact ⟨element :: elements, rfl, rfl⟩
    | _ => cases (Prod.mk.inj complete).2

/-- What a change of an element keeps, a change of all of them keeps. -/
theorem forall_mem_changeSubOfAll {P : Json → Prop} {change : Change} {sub : Attribute}
    {items changed : List Json} (complete : changeSubOfAll change sub items = (changed, true))
    (each : ∀ item ∈ items, P item)
    (inside : ∀ element, P (.object element) → P (.object (changeSub change sub element))) :
    ∀ item ∈ changed, P item := by
  obtain ⟨elements, rfl, rfl⟩ := changeSubOfAll_eq complete
  intro item member
  obtain ⟨element, inElements, rfl⟩ := List.mem_map.mp member
  exact inside element (each _ (List.mem_map_of_mem inElements))

/-! ### What a change does -/

variable {target : Target} {change : Change} {before after : Object}

/-- A sub-attribute may be written, by what is stored under it anywhere in the attribute. -/
def Target.AllowsSub (target : Target) (before : Object) (sub : Attribute) : Prop :=
  checkMutable sub ((before.attribute? target.definition.name).any (Json.hasSub sub.name)) = .ok ()

/-- The ways in which a change to an attribute rewrites the object that holds it, each with what has
been found before. -/
inductive Target.Rewrites (target : Target) (change : Change) (before : Object) : Object → Prop
  | removed : target.filter = none → target.sub = none → change = .remove →
    Rewrites target change before (before.removeAttribute target.definition.name)
  | added {value : Json} : target.filter = none → target.sub = none →
    target.definition.multiValued = true → change = .add value →
    Rewrites target change before (addToCollection target.definition.name value before)
  | replaced {value : Json} : target.filter = none → target.sub = none →
    target.definition.multiValued = true → change = .replace value →
    Rewrites target change before (replaceCollection target.definition.name value before)
  | merged {entries : Object} : target.filter = none → target.sub = none →
    target.definition.multiValued = false → target.definition.isComplex = true →
    change.value? = some (.object entries) →
    checkEntriesMutable target.definition
      (fun sub => (before.attribute? target.definition.name).any (Json.hasSub sub.name)) entries =
      .ok () →
    Rewrites target change before (mergeInto target.definition entries before)
  | overwritten {value : Json} : target.filter = none → target.sub = none →
    target.definition.multiValued = false → target.definition.isComplex = false →
    change.value? = some value →
    Rewrites target change before (before.setAttribute target.definition.name value)
  /-- There are no elements whose sub-attribute could be cleared. -/
  | untouched {sub : Attribute} : target.filter = none → target.sub = some sub →
    target.definition.multiValued = true → target.AllowsSub before sub → change.value? = none →
    storedElements (before.slot? target.definition.name) = [] → Rewrites target change before before
  | subOfItems {sub : Attribute} {changed : List Json} : target.filter = none → target.sub = some sub →
    target.definition.multiValued = true → target.AllowsSub before sub →
    storedElements (before.slot? target.definition.name) ≠ [] →
    changeSubOfAll change sub (storedElements (before.slot? target.definition.name)) =
      (changed, true) →
    Rewrites target change before
      (storeItems target.definition.name (changed.filter Json.isPresent) before)
  | subOfValue {sub : Attribute} : target.filter = none → target.sub = some sub →
    target.definition.multiValued = false → target.AllowsSub before sub →
    Rewrites target change before (changeSubOfValue target.definition.name sub change before)
  | selected {filter : Filter} {changed : List Json} : target.filter = some filter →
    (storedElements (before.slot? target.definition.name)).any
      (filter.matchesElement target.definition) = true →
    changeSelected target (filter.matchesElement target.definition) change
      (storedElements (before.slot? target.definition.name)) = .ok changed →
    Rewrites target change before (storeItems target.definition.name changed before)

theorem mergeComplex_eq_ok {value : Json}
    (applied : mergeComplex target value before = .ok () after) :
    ∃ entries, value = .object entries ∧
      checkEntriesMutable target.definition
        (fun sub => (before.attribute? target.definition.name).any (Json.hasSub sub.name)) entries =
        .ok () ∧
      after = mergeInto target.definition entries before := by
  cases value with
  | object entries =>
    simp only [mergeComplex, step_bind_eq_ok_iff, step_get_eq_ok_iff, step_check_eq_ok_iff,
      step_modify_eq_ok_iff] at applied
    obtain ⟨_, _, ⟨rfl, rfl⟩, _, _, ⟨allowed, rfl⟩, rfl⟩ := applied
    exact ⟨entries, rfl, allowed, rfl⟩
  | _ => exact absurd applied step_throw_ne_ok

theorem applyWhole_eq_ok (filtered : target.filter = none) (inner : target.sub = none)
    (applied : applyWhole target change before = .ok () after) :
    checkMutable target.definition (before.has target.definition.name) = .ok () ∧
      target.Rewrites change before after := by
  simp only [applyWhole, step_bind_eq_ok_iff, step_get_eq_ok_iff, step_check_eq_ok_iff] at applied
  obtain ⟨_, _, ⟨rfl, rfl⟩, _, _, ⟨allowed, rfl⟩, applied⟩ := applied
  refine ⟨allowed, ?_⟩
  -- A single value is merged or overwritten, by adding as by replacing.
  have ofSingle {value : Json} (written : change.value? = some value)
      (single : ¬target.definition.multiValued = true)
      (applied : (if target.definition.isComplex = true then mergeComplex target value
        else modify (·.setAttribute target.definition.name value)) before = .ok () after) :
      target.Rewrites change before after := by
    have isSingle := Bool.eq_false_iff.mpr single
    split at applied
    next complex =>
      obtain ⟨entries, rfl, allowed, rfl⟩ := mergeComplex_eq_ok applied
      exact .merged filtered inner isSingle complex written allowed
    next simple =>
      have isSimple := Bool.eq_false_iff.mpr simple
      exact step_modify_eq_ok_iff.mp applied ▸ .overwritten filtered inner isSingle isSimple written
  cases change with
  | remove => exact step_modify_eq_ok_iff.mp applied ▸ .removed filtered inner rfl
  | add value =>
    simp only at applied
    split at applied
    next many => exact step_modify_eq_ok_iff.mp applied ▸ .added filtered inner many rfl
    next single => exact ofSingle rfl single applied
  | replace value =>
    simp only at applied
    split at applied
    next many => exact step_modify_eq_ok_iff.mp applied ▸ .replaced filtered inner many rfl
    next single => exact ofSingle rfl single applied

theorem applySubOfItems_eq_ok {sub : Attribute} (filtered : target.filter = none)
    (inner : target.sub = some sub) (many : target.definition.multiValued = true)
    (allowed : target.AllowsSub before sub)
    (applied : applySubOfItems target sub change before = .ok () after) :
    target.Rewrites change before after := by
  simp only [applySubOfItems, step_bind_eq_ok_iff, step_get_eq_ok_iff] at applied
  obtain ⟨_, _, ⟨rfl, rfl⟩, applied⟩ := applied
  split at applied
  next noItems =>
    split at applied
    · exact absurd applied step_throw_ne_ok
    next nothingWritten =>
      obtain ⟨_, rfl⟩ := step_pure_eq_ok_iff.mp applied
      have isRemove := by simpa using nothingWritten
      exact .untouched filtered inner many allowed isRemove (List.isEmpty_iff.mp noItems)
  next someItems =>
    split at applied
    next complete =>
      rw [step_modify_eq_ok_iff] at applied
      have items := fun none => someItems (List.isEmpty_iff.mpr none)
      exact applied ▸ .subOfItems filtered inner many allowed items (Prod.ext rfl complete)
    · -- Elements may have been rewritten here, but the step has failed.
      obtain ⟨_, _, _, failed⟩ := step_bind_eq_ok_iff.mp applied
      exact absurd failed step_throw_ne_ok

theorem applySub_eq_ok {sub : Attribute} (filtered : target.filter = none)
    (inner : target.sub = some sub) (applied : applySub target sub change before = .ok () after) :
    checkMutable target.definition (before.has target.definition.name) = .ok () ∧
      target.Rewrites change before after := by
  simp only [applySub, step_bind_eq_ok_iff, step_get_eq_ok_iff, step_check_eq_ok_iff] at applied
  obtain ⟨_, _, ⟨rfl, rfl⟩, _, _, ⟨allowed, rfl⟩, _, _, ⟨allowedSub, rfl⟩, applied⟩ := applied
  refine ⟨allowed, ?_⟩
  split at applied
  next many => exact applySubOfItems_eq_ok filtered inner many allowedSub applied
  next single =>
    rw [step_modify_eq_ok_iff] at applied
    exact applied ▸ .subOfValue filtered inner (Bool.eq_false_iff.mpr single) allowedSub

theorem applyFiltered_eq_ok {filter : Filter} (filtered : target.filter = some filter)
    (applied : applyFiltered target filter change before = .ok () after) :
    checkMutable target.definition (before.has target.definition.name) = .ok () ∧
      target.Rewrites change before after := by
  simp only [applyFiltered, step_bind_eq_ok_iff, step_get_eq_ok_iff, step_check_eq_ok_iff] at applied
  obtain ⟨_, _, ⟨rfl, rfl⟩, _, _, ⟨allowed, rfl⟩, _, _, ⟨rfl, rfl⟩, applied⟩ := applied
  refine ⟨allowed, ?_⟩
  split at applied
  next matching =>
    simp only [step_bind_eq_ok_iff, step_check_eq_ok_iff, step_modify_eq_ok_iff] at applied
    obtain ⟨_, _, ⟨changed, rfl⟩, rfl⟩ := applied
    exact .selected filtered matching changed
  · exact absurd applied step_throw_ne_ok

/-- **A change to an attribute that succeeds has been allowed, and rewrites the object in one of a few
ways**, by what the target is: the attribute as a whole, a sub-attribute, or selected elements. -/
theorem applyInContainer_eq_ok (applied : applyInContainer target change before = .ok () after) :
    checkMutable target.definition (before.has target.definition.name) = .ok () ∧
      target.Rewrites change before after := by
  unfold applyInContainer at applied
  -- A value filter decides first, then a sub-attribute.
  cases filtered : target.filter with
  | none =>
    cases inner : target.sub with
    | none =>
      rw [filtered, inner] at applied
      exact applyWhole_eq_ok filtered inner applied
    | some sub =>
      rw [filtered, inner] at applied
      exact applySub_eq_ok filtered inner applied
  | some filter =>
    rw [filtered] at applied
    exact applyFiltered_eq_ok filtered applied

/-- Every rewriting that is allowed is carried out. -/
theorem applyInContainer_of_rewrites
    (allowed : checkMutable target.definition (before.has target.definition.name) = .ok ())
    (rewrites : target.Rewrites change before after) :
    applyInContainer target change before = .ok () after := by
  unfold applyInContainer
  cases rewrites with
  | removed filtered inner isRemove =>
    subst isRemove
    simp [filtered, inner, applyWhole, step_bind_eq_ok_iff, allowed]
  | added filtered inner many isAdd =>
    subst isAdd
    simp [filtered, inner, applyWhole, step_bind_eq_ok_iff, allowed, many]
  | replaced filtered inner many isReplace =>
    subst isReplace
    simp [filtered, inner, applyWhole, step_bind_eq_ok_iff, allowed, many]
  | merged filtered inner single complex written checked =>
    cases change with
    | remove => cases written
    | add value | replace value =>
      cases written
      simp [filtered, inner, applyWhole, mergeComplex, step_bind_eq_ok_iff, allowed, single, complex,
        checked]
  | overwritten filtered inner single simple written =>
    cases change with
    | remove => cases written
    | add value | replace value =>
      cases written
      simp [filtered, inner, applyWhole, step_bind_eq_ok_iff, allowed, single, simple]
  | untouched filtered inner many allowedSub nothing noItems =>
    unfold Target.AllowsSub at allowedSub
    simp [filtered, inner, applySub, applySubOfItems, step_bind_eq_ok_iff, allowed, allowedSub, many,
      nothing, noItems]
  | subOfItems filtered inner many allowedSub someItems complete =>
    unfold Target.AllowsSub at allowedSub
    simp [filtered, inner, applySub, applySubOfItems, step_bind_eq_ok_iff, allowed, allowedSub, many,
      someItems, complete]
  | subOfValue filtered inner single allowedSub =>
    unfold Target.AllowsSub at allowedSub
    simp [filtered, inner, applySub, step_bind_eq_ok_iff, allowed, allowedSub, single]
  | selected filtered matching changed =>
    simp only [filtered, applyFiltered, step_bind_eq_ok_iff, step_get_eq_ok_iff, step_check_eq_ok_iff]
    refine ⟨_, _, ⟨rfl, rfl⟩, _, _, ⟨allowed, rfl⟩, _, _, ⟨rfl, rfl⟩, ?_⟩
    simp [matching, step_bind_eq_ok_iff, changed]

/-- Under a value filter, it is the selected elements that are changed, and there are some. -/
theorem Target.Rewrites.of_filter {filter : Filter} (filtered : target.filter = some filter)
    (rewrites : target.Rewrites change before after) :
    (storedElements (before.slot? target.definition.name)).any
        (filter.matchesElement target.definition) = true ∧
      ∃ changed,
        changeSelected target (filter.matchesElement target.definition) change
          (storedElements (before.slot? target.definition.name)) = .ok changed ∧
        after = storeItems target.definition.name changed before := by
  cases rewrites with
  | selected isFilter matching selected =>
    rw [filtered] at isFilter
    cases isFilter
    exact ⟨matching, _, selected, rfl⟩
  | removed unfiltered | added unfiltered | replaced unfiltered | merged unfiltered
  | overwritten unfiltered | untouched unfiltered | subOfItems unfiltered | subOfValue unfiltered =>
    rw [filtered] at unfiltered
    cases unfiltered

/-- Whatever the way, nothing but the attribute is written. -/
theorem Target.Rewrites.edits (rewrites : target.Rewrites change before after) :
    Edits target.definition.name before after := by
  cases rewrites with
  | removed => exact .remove .refl
  | added => exact addToCollection_edits _ _ before
  | replaced => exact replaceCollection_edits _ _ before
  | merged => exact mergeInto_edits target.definition _ before
  | overwritten => exact .set _ .refl
  | untouched => exact .refl
  | subOfItems | selected => exact storeItems_edits _ _ before
  | subOfValue => exact changeSubOfValue_edits _ _ change before

/-! ### Selected elements -/

section Selected

variable {selects : Json → Bool} {items changed : List Json}

/-- What becomes of an element if a sub-attribute of the selected ones is changed. -/
def changeElement (selects : Json → Bool) (change : Change) (sub : Attribute) (item : Json) : Json :=
  match item with
  | .object element => if selects item then .object (changeSub change sub element) else item
  | _ => item

/-- A value filter selects nothing but objects. -/
theorem exists_object_of_matchesElement {filter : Filter} {definition : Attribute} {item : Json}
    (matching : filter.matchesElement definition item = true) : ∃ element, item = .object element := by
  cases item with
  | object element => exact ⟨element, rfl⟩
  | _ => cases matching

theorem changeSelected_replace {value : Json} (inner : target.sub = none)
    (written : change.value? = some value)
    (selected : changeSelected target selects change items = .ok changed) :
    changed = items.map fun item => if selects item then value else item := by
  simp only [changeSelected, inner, written] at selected
  -- An object is written after its entries have been checked, anything else as it is.
  cases value with
  | object entries =>
    obtain ⟨_, made⟩ := check_bind_eq_ok_iff.mp selected
    cases made
    rfl
  | _ =>
    cases selected
    rfl

theorem changeSelected_remove (inner : target.sub = none) (removed : change.value? = none)
    (selected : changeSelected target selects change items = .ok changed) :
    changed = items.filter (!selects ·) := by
  simp only [changeSelected, inner, removed] at selected
  cases selected
  rfl

theorem changeSelected_sub {sub : Attribute} (inner : target.sub = some sub)
    (selected : changeSelected target selects change items = .ok changed) :
    changed = (items.map (changeElement selects change sub)).filter Json.isPresent := by
  simp only [changeSelected, inner] at selected
  obtain ⟨_, made⟩ := check_bind_eq_ok_iff.mp selected
  cases made
  rfl

/-- What all elements have, and a change of an element keeps, all elements have afterwards, if a value
that takes the place of some has it too. -/
theorem forall_mem_changeSelected {P : Json → Prop} (each : ∀ item ∈ items, P item)
    (whole : target.sub = none → ∀ value, change.value? = some value → P value)
    (inside : ∀ sub, target.sub = some sub → ∀ element, P (.object element) →
      P (.object (changeSub change sub element)))
    (selected : changeSelected target selects change items = .ok changed) :
    ∀ item ∈ changed, P item := by
  intro item member
  cases inner : target.sub with
  | none =>
    cases written : change.value? with
    | some value =>
      rw [changeSelected_replace inner written selected] at member
      obtain ⟨old, inItems, rfl⟩ := List.mem_map.mp member
      split
      · exact whole inner value written
      · exact each old inItems
    | none =>
      rw [changeSelected_remove inner written selected] at member
      exact each item (List.mem_filter.mp member).1
  | some sub =>
    rw [changeSelected_sub inner selected] at member
    obtain ⟨old, inItems, rfl⟩ := List.mem_map.mp (List.mem_filter.mp member).1
    unfold changeElement
    split
    · split
      · exact inside sub inner _ (each _ inItems)
      · exact each _ inItems
    · exact each _ inItems

end Selected

/-! ### Changes that are allowed -/

/-- An attribute may be written, and nothing else has been. -/
structure Writes (definition : Attribute) (before after : Object) : Prop where
  allowed : checkMutable definition (before.has definition.name) = .ok ()
  changes : ChangesOnly definition.name before after

/-- **Whatever is written to an object, its attribute may be written, and no other attribute is.**
-/
theorem applyInContainer_writes (unambiguous : before.Unambiguous)
    (applied : applyInContainer target change before = .ok () after) :
    Writes target.definition before after := by
  obtain ⟨allowed, rewrites⟩ := applyInContainer_eq_ok applied
  exact ⟨allowed, rewrites.edits.changesOnly unambiguous⟩

end Scim
