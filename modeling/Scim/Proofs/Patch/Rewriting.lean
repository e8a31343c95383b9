import Scim.Proofs.Patch.Frame
import Scim.Proofs.Patch.Keys
import Scim.Proofs.Resource.Regular

/-!
# Changing an attribute again

A change that is made to an attribute a second time finds what it has left the first time. Whichever
way it is written, that is what the change leaves again: a collection has the added items already, a
merged object has the entries already, and an element that has been changed and is selected again is
changed to what it is.

All ways of writing are writes under one name, so it is enough to compare what stands under that name.
-/

namespace Scim

open Object

variable {name : String} {container before between after : Object} {target : Target} {change : Change}

/-! ### Collections -/

theorem addItems_of_known {collection items : List Json}
    (known : ∀ item ∈ items, ∃ other ∈ collection, other.same item = true) :
    addItems collection items = collection := by
  induction items with
  | nil => rfl
  | cons head rest ih =>
    have knownHead := List.any_eq_true.mpr (known head List.mem_cons_self)
    rw [addItems, if_pos knownHead]
    exact ih fun item member => known item (List.mem_cons_of_mem head member)

theorem addItems_addItems (collection items : List Json) :
    addItems (addItems collection items) items = addItems collection items :=
  addItems_of_known fun _ member => exists_same_mem_addItems collection member

/-- What adding values leaves of a stored collection. -/
def addedValue (value : Json) (stored : Option Json) : Option Json :=
  let items := addItems (storedItems stored) (addedItems value)
  if items.isEmpty then none else some (.array items)

/-- No items are the same as no collection. -/
theorem storedItems_addedValue (value : Json) (stored : Option Json) :
    storedItems (addedValue value stored) = addItems (storedItems stored) (addedItems value) := by
  rw [addedValue]
  cases empty : (addItems (storedItems stored) (addedItems value)).isEmpty with
  | true => exact (List.isEmpty_iff.mp empty).symm
  | false => rfl

theorem addedValue_addedValue (value : Json) (stored : Option Json) :
    addedValue value (addedValue value stored) = addedValue value stored := by
  rw [addedValue, storedItems_addedValue, addItems_addItems, addedValue]

/-! ### Merged objects -/

section Merging

variable {definition : Attribute} {current entries : Object}

/-- What merging the entries of an object makes of the entry under a name: it is written by the last of
them that has the name, or cleared by it; without such an entry it is left as it is. -/
def mergedEntry (definition : Attribute) (name : String) : Object → Option (Option (String × Json))
  | [] => none
  | (key, value) :: rest =>
    let written := (definition.sub? key).elim key Attribute.name
    (mergedEntry definition name rest).or
      (if Text.fold name = Text.fold written then
        some (if value.isNull then none else some (written, value))
      else none)

theorem regular_mergeEntries (regular : current.Regular) :
    Regular (mergeEntries definition current entries) := by
  induction entries generalizing current with
  | nil => exact regular
  | cons entry rest ih =>
    rw [mergeEntries]
    apply ih
    split
    · exact regular.removeAttribute _
    · exact regular.setAttribute _ _

theorem named?_mergeEntries (regular : current.Regular) (name : String) :
    Object.named? (mergeEntries definition current entries) name =
      (mergedEntry definition name entries).getD (current.named? name) := by
  induction entries generalizing current with
  | nil => rfl
  | cons entry rest ih =>
    obtain ⟨key, value⟩ := entry
    rw [mergeEntries, mergedEntry]
    cases isNull : value.isNull with
    | true =>
      simp only [if_true]
      rw [ih (regular.removeAttribute _), regular.named?_removeAttribute]
      cases mergedEntry definition name rest with
      | none => split <;> rfl
      | some last => rfl
    | false =>
      simp only [Bool.false_eq_true, if_false]
      rw [ih (regular.setAttribute _ _), regular.named?_setAttribute]
      cases mergedEntry definition name rest with
      | none => split <;> rfl
      | some last => rfl

theorem mergeEntries_mergeEntries (regular : current.Regular) :
    mergeEntries definition (mergeEntries definition current entries) entries =
      mergeEntries definition current entries := by
  have merged : Regular (mergeEntries definition current entries) := regular_mergeEntries regular
  apply (regular_mergeEntries merged).ext merged
  intro name
  rw [named?_mergeEntries merged, named?_mergeEntries regular]
  cases mergedEntry definition name entries <;> rfl

/-- What is merged into an empty object is merged into any other. -/
theorem holdsAny_mergeEntries (regular : current.Regular)
    (holds : Object.holdsAny (mergeEntries definition [] entries) = true) :
    Object.holdsAny (mergeEntries definition current entries) = true := by
  obtain ⟨name, entry, found, present⟩ := (regular_mergeEntries regular_nil).holdsAny_iff.mp holds
  refine (regular_mergeEntries regular).holdsAny_iff.mpr ⟨name, entry, ?_, present⟩
  rw [named?_mergeEntries regular_nil] at found
  rw [named?_mergeEntries regular]
  cases written : mergedEntry definition name entries with
  | none =>
    rw [written] at found
    cases found
  | some last => rwa [written] at found

/-- The object that is stored under an attribute, or an empty one. -/
def storedObject (stored : Option Json) : Object := (stored.bind Json.object?).getD []

/-- What merging an object leaves of a stored value. -/
def mergedValue (definition : Attribute) (entries : Object) (stored : Option Json) : Option Json :=
  let merged := mergeEntries definition (storedObject stored) entries
  if merged.holdsAny then some (.object merged) else none

theorem mergedValue_mergedValue {stored : Option Json} (regular : (storedObject stored).Regular) :
    mergedValue definition entries (mergedValue definition entries stored) =
      mergedValue definition entries stored := by
  cases holds : (mergeEntries definition (storedObject stored) entries).holdsAny with
  | true =>
    have again : storedObject (some (.object (mergeEntries definition (storedObject stored) entries))) =
        mergeEntries definition (storedObject stored) entries := rfl
    simp [mergedValue, holds, again, mergeEntries_mergeEntries regular]
  | false =>
    -- Merged into nothing the entries hold no more than merged into something.
    have nothing : (mergeEntries definition [] entries).holdsAny = false :=
      Bool.eq_false_iff.mpr fun some => by
        rw [holdsAny_mergeEntries regular some] at holds
        cases holds
    have empty : storedObject none = [] := rfl
    simp [mergedValue, holds, empty, nothing]

end Merging

/-! ### Whole attributes -/

/-- What writing a value as a whole leaves of the value that is stored. -/
def Attribute.singleValue (definition : Attribute) (value : Json) (stored : Option Json) : Option Json :=
  if definition.isComplex then
    match value with
    | .object entries => mergedValue definition entries stored
    | _ => stored
  else some value

/-- What a change to an attribute as a whole leaves of the value that is stored. -/
def Target.wholeValue (target : Target) (change : Change) (stored : Option Json) : Option Json :=
  match change with
  | .remove => none
  | .add value =>
    if target.definition.multiValued then addedValue value stored
    else target.definition.singleValue value stored
  | .replace value =>
    if target.definition.multiValued then if value.isPresent then some value else none
    else target.definition.singleValue value stored

theorem regular_storedObject (keyed : Json.IsKeyed (.object container)) (name : String) :
    (storedObject (container.attribute? name)).Regular := by
  have unambiguous := (regular_of_isKeyed keyed).unambiguous
  rw [← slot?_eq_attribute? unambiguous]
  cases stored : container.slot? name with
  | none => exact regular_nil
  | some value =>
    cases value with
    | object parent => exact regular_of_isKeyed (keyed.of_slot? stored)
    | _ => exact regular_nil

theorem singleValue_singleValue {definition : Attribute} {stored : Option Json}
    (regular : (storedObject stored).Regular) (value : Json) :
    definition.singleValue value (definition.singleValue value stored) =
      definition.singleValue value stored := by
  unfold Attribute.singleValue
  split
  · cases value with
    | object entries => exact mergedValue_mergedValue regular
    | _ => rfl
  · rfl

theorem wholeValue_wholeValue {stored : Option Json} (regular : (storedObject stored).Regular) :
    target.wholeValue change (target.wholeValue change stored) = target.wholeValue change stored := by
  cases change with
  | remove => rfl
  | add value =>
    simp only [Target.wholeValue]
    split
    · exact addedValue_addedValue value stored
    · exact singleValue_singleValue regular value
  | replace value =>
    simp only [Target.wholeValue]
    split
    · rfl
    · exact singleValue_singleValue regular value

section Whole

variable (regular : container.Regular)

include regular

theorem named?_addToCollection (name : String) (value : Json) :
    Object.named? (addToCollection name value container) name =
      (addedValue value (container.attribute? name)).map (name, ·) := by
  simp only [addToCollection, addedValue, slot?_eq_attribute? regular.unambiguous]
  split
  · rw [regular.named?_removeAttribute, if_pos rfl]
    rfl
  · rw [(regular.removeAttribute name).named?_setAttribute, if_pos rfl]
    rfl

theorem named?_replaceCollection (name : String) (value : Json) :
    Object.named? (replaceCollection name value container) name =
      (if value.isPresent then some value else none).map (name, ·) := by
  unfold replaceCollection
  split
  · rw [regular.named?_setAttribute, if_pos rfl]
    rfl
  · rw [regular.named?_removeAttribute, if_pos rfl]
    rfl

theorem named?_mergeInto (definition : Attribute) (entries : Object) :
    Object.named? (mergeInto definition entries container) definition.name =
      (mergedValue definition entries (container.attribute? definition.name)).map
        (definition.name, ·) := by
  have current : ((container.slot? definition.name).bind Json.object?).getD [] =
      storedObject (container.attribute? definition.name) := by
    rw [slot?_eq_attribute? regular.unambiguous, storedObject]
  simp only [mergeInto, mergedValue, current]
  split
  · rw [(regular.removeAttribute _).named?_setAttribute, if_pos rfl]
    rfl
  · rw [regular.named?_removeAttribute, if_pos rfl]
    rfl

end Whole

theorem Target.Rewrites.named?_of_whole (regular : before.Regular) (unfiltered : target.filter = none)
    (whole : target.sub = none) (rewrites : target.Rewrites change before after) :
    after.named? target.definition.name =
      (target.wholeValue change (before.attribute? target.definition.name)).map
        (target.definition.name, ·) := by
  -- A single value is merged or overwritten, by adding as by replacing.
  have ofSingle {value : Json} (written : change.value? = some value)
      (single : target.definition.multiValued = false) :
      target.wholeValue change (before.attribute? target.definition.name) =
        target.definition.singleValue value (before.attribute? target.definition.name) := by
    cases change with
    | remove => cases written
    | add | replace =>
      cases written
      simp [wholeValue, single]
  cases rewrites with
  | removed _ _ isRemove =>
    subst isRemove
    rw [regular.named?_removeAttribute, if_pos rfl]
    rfl
  | added _ _ many isAdd =>
    subst isAdd
    rw [named?_addToCollection regular, wholeValue, if_pos many]
  | replaced _ _ many isReplace =>
    subst isReplace
    rw [named?_replaceCollection regular, wholeValue, if_pos many]
  | merged _ _ single complex written =>
    rw [named?_mergeInto regular, ofSingle written single, Attribute.singleValue, if_pos complex]
  | overwritten _ _ single simple written =>
    rw [regular.named?_setAttribute, if_pos rfl, ofSingle written single]
    simp [Attribute.singleValue, simple]
  | untouched _ inner | subOfItems _ inner | subOfValue _ inner =>
    rw [whole] at inner
    cases inner
  | selected filtered =>
    rw [unfiltered] at filtered
    cases filtered

/-- An attribute that is changed as a whole once more stays as it is. -/
theorem Target.Rewrites.again_of_whole (keyed : Json.IsKeyed (.object before))
    (unfiltered : target.filter = none) (whole : target.sub = none)
    (first : target.Rewrites change before between) (second : target.Rewrites change between after) :
    after = between := by
  have regular := regular_of_isKeyed keyed
  have regularBetween := regular.of_edits first.edits
  have entry := first.named?_of_whole regular unfiltered whole
  apply regularBetween.eq_of_edits second.edits
  have stored : between.attribute? target.definition.name =
      target.wholeValue change (before.attribute? target.definition.name) := by
    rw [regularBetween.attribute?_eq_named?, entry]
    cases target.wholeValue change (before.attribute? target.definition.name) <;> rfl
  rw [second.named?_of_whole regularBetween unfiltered whole, stored, entry,
    wholeValue_wholeValue (regular_storedObject keyed _)]

/-! ### Sub-attributes of a single value -/

theorem changeSub_changeSub (sub : Attribute) {element : Object} (regular : element.Regular) :
    changeSub change sub (changeSub change sub element) = changeSub change sub element := by
  unfold changeSub
  cases change.value? with
  | none => exact regular.removeAttribute_removeAttribute
  | some value => exact regular.setAttribute_setAttribute

section Values

variable {sub : Attribute} {parent : Object} {value : Json}

theorem setSub_of_object (unambiguous : container.Unambiguous)
    (stored : container.attribute? name = some (.object parent)) :
    setSub name sub value container =
      container.replaceSlot name (.object (parent.setAttribute sub.name value)) := by
  have ensured : ensureObject name container = container := by
    unfold ensureObject
    rw [stored]
  simp only [setSub, ensured, slot?_eq_attribute? unambiguous, stored]

/-- Once a sub-attribute has been put into an object, it is put there again. -/
theorem setSub_replaceSlot (keyed : Json.IsKeyed (.object container))
    (stored : container.attribute? name = some (.object parent)) :
    setSub name sub value (container.replaceSlot name (.object (parent.setAttribute sub.name value))) =
      container.replaceSlot name (.object (parent.setAttribute sub.name value)) := by
  have regular := regular_of_isKeyed keyed
  have slot := (slot?_eq_attribute? regular.unambiguous).trans stored
  have regularParent := regular_of_isKeyed (keyed.of_slot? slot)
  have read : Object.attribute?
      (container.replaceSlot name (.object (parent.setAttribute sub.name value))) name =
        some (.object (parent.setAttribute sub.name value)) :=
    attribute?_replaceSlot_self regular.unambiguous stored
  have regularWritten := regular.replaceSlot name (.object (parent.setAttribute sub.name value))
  rw [setSub_of_object regularWritten.unambiguous read, regularParent.setAttribute_setAttribute]
  exact regularWritten.replaceSlot_of_there read

theorem setSub_setSub (keyed : Json.IsKeyed (.object container)) :
    setSub name sub value (setSub name sub value container) = setSub name sub value container := by
  have stored := attribute?_ensureObject name container
  have keyedEnsured : Json.IsKeyed (.object (ensureObject name container)) := isKeyed_ensureObject keyed
  have slot := (slot?_eq_attribute? (regular_of_isKeyed keyedEnsured).unambiguous).trans stored
  have written : setSub name sub value container =
      Object.replaceSlot (ensureObject name container) name
        (.object (Object.setAttribute (storedObject (container.attribute? name)) sub.name value)) := by
    simp only [setSub, slot]
    rfl
  rw [written]
  exact setSub_replaceSlot keyedEnsured stored

theorem clearSub_of_object (stored : container.slot? name = some (.object parent)) :
    clearSub name sub container =
      if (parent.removeAttribute sub.name).holdsAny then
        container.replaceSlot name (.object (parent.removeAttribute sub.name))
      else container.removeAttribute name := by
  unfold clearSub
  rw [stored]

theorem clearSub_of_not_object (notObject : (container.slot? name).bind Json.object? = none) :
    clearSub name sub container = container := by
  unfold clearSub
  split
  next parent stored =>
    rw [stored] at notObject
    cases notObject
  · rfl

theorem clearSub_clearSub (keyed : Json.IsKeyed (.object container)) :
    clearSub name sub (clearSub name sub container) = clearSub name sub container := by
  have regular := regular_of_isKeyed keyed
  by_cases isObject : ∃ parent : Object, container.slot? name = some (.object parent)
  · obtain ⟨parent, slot⟩ := isObject
    have regularParent := regular_of_isKeyed (keyed.of_slot? slot)
    rw [clearSub_of_object slot]
    split
    next holds =>
      -- What is left of the object does not have the sub-attribute any more.
      have regularLeft := regular.replaceSlot name (.object (parent.removeAttribute sub.name))
      have read : Object.attribute?
          (container.replaceSlot name (.object (parent.removeAttribute sub.name))) name =
            some (.object (parent.removeAttribute sub.name)) :=
        attribute?_replaceSlot_self regular.unambiguous
          ((slot?_eq_attribute? regular.unambiguous).symm.trans slot)
      rw [clearSub_of_object ((slot?_eq_attribute? regularLeft.unambiguous).trans read),
        regularParent.removeAttribute_removeAttribute, if_pos holds]
      exact regularLeft.replaceSlot_of_there read
    next =>
      have gone : Object.attribute? (container.removeAttribute name) name = none :=
        attribute?_removeAttribute_self regular.unambiguous rfl
      apply clearSub_of_not_object
      rw [slot?_eq_attribute? (regular.removeAttribute name).unambiguous, gone]
      rfl
  · have unchanged : clearSub name sub container = container := by
      apply clearSub_of_not_object
      cases slot : container.slot? name with
      | none => rfl
      | some stored =>
        cases stored with
        | object parent => exact absurd ⟨parent, slot⟩ isObject
        | _ => rfl
    rw [unchanged, unchanged]

theorem changeSubOfValue_changeSubOfValue (sub : Attribute) (change : Change)
    (keyed : Json.IsKeyed (.object container)) :
    changeSubOfValue name sub change (changeSubOfValue name sub change container) =
      changeSubOfValue name sub change container := by
  unfold changeSubOfValue
  cases change.value? with
  | none => exact clearSub_clearSub keyed
  | some value => exact setSub_setSub keyed

end Values

/-! ### Elements -/

section Elements

variable {sub : Attribute} {selects : Json → Bool} {items changed left again : List Json}

theorem named?_storeItems (regular : container.Regular) (items : List Json) :
    Object.named? (storeItems name items container) name =
      if items.isEmpty then none else (container.named? name).map fun entry => (entry.1, .array items) := by
  unfold storeItems
  split
  · rw [regular.named?_removeAttribute, if_pos rfl]
  · rw [regular.named?_replaceSlot, if_pos rfl]

theorem storeItems_storeItems (regular : container.Regular) (items : List Json) :
    storeItems name items (storeItems name items container) = storeItems name items container := by
  have regularStored := regular.of_edits (storeItems_edits name items container)
  apply regularStored.eq_of_edits (storeItems_edits name items _)
  rw [named?_storeItems regularStored, named?_storeItems regular]
  cases items.isEmpty <;> simp [Function.comp_def]

/-- A collection that has been stored is found again, unless there is none. -/
theorem storedElements_storeItems (regular : container.Regular)
    (someItems : storedElements (Object.slot? (storeItems name items container) name) ≠ []) :
    storedElements (Object.slot? (storeItems name items container) name) = items := by
  have regularStored := regular.of_edits (storeItems_edits name items container)
  rw [regularStored.slot?_eq_named?, named?_storeItems regular] at someItems ⊢
  cases empty : items.isEmpty with
  | true =>
    rw [empty] at someItems
    exact absurd rfl someItems
  | false =>
    rw [empty] at someItems
    cases found : container.named? name with
    | none =>
      rw [found] at someItems
      exact absurd rfl someItems
    | some entry => rfl

/-- An element that has been changed is not changed again, whether or not it is still selected. -/
theorem changeElement_changeElement {item : Json} (keyed : item.IsKeyed) :
    changeElement selects change sub (changeElement selects change sub item) =
      changeElement selects change sub item := by
  cases item with
  | object element =>
    have again : changeSub change sub (changeSub change sub element) = changeSub change sub element :=
      changeSub_changeSub sub (regular_of_isKeyed keyed)
    cases isSelected : selects (.object element) with
    | true =>
      have changed : changeElement selects change sub (.object element) =
          .object (changeSub change sub element) := by
        simp [changeElement, isSelected]
      rw [changed]
      simp [changeElement, again]
    | false =>
      have unchanged : changeElement selects change sub (.object element) = .object element := by
        simp [changeElement, isSelected]
      rw [unchanged, unchanged]
  | _ => rfl

theorem changeSelected_again (keyed : ∀ item ∈ items, item.IsKeyed)
    (first : changeSelected target selects change items = .ok changed)
    (second : changeSelected target selects change changed = .ok again)
    (selected : changed.any selects = true) : again = changed := by
  cases inner : target.sub with
  | some sub =>
    rw [changeSelected_sub inner second]
    rw [changeSelected_sub inner first]
    have unchanged : ∀ item ∈ (items.map (changeElement selects change sub)).filter Json.isPresent,
        changeElement selects change sub item = item := by
      intro item member
      obtain ⟨old, inItems, rfl⟩ := List.mem_map.mp (List.mem_filter.mp member).1
      exact changeElement_changeElement (keyed old inItems)
    rw [List.map_congr_left unchanged, List.map_id', List.filter_filter]
    simp
  | none =>
    cases written : change.value? with
    | some value =>
      rw [changeSelected_replace inner written second]
      rw [changeSelected_replace inner written first]
      rw [List.map_map]
      refine List.map_congr_left fun item _ => ?_
      -- The value that takes the place of an element may be selected itself.
      cases isSelected : selects item with
      | true => simp [isSelected]
      | false => simp [isSelected]
    | none =>
      -- What is selected has been removed, so nothing is selected any more.
      rw [changeSelected_remove inner written first] at selected
      obtain ⟨item, member, isSelected⟩ := List.any_eq_true.mp selected
      have notSelected := (List.mem_filter.mp member).2
      rw [isSelected] at notSelected
      cases notSelected

theorem changeSubOfAll_again (keyed : ∀ item ∈ items, item.IsKeyed)
    (first : changeSubOfAll change sub items = (changed, true)) (kept : left ⊆ changed)
    (second : changeSubOfAll change sub left = (again, true)) : again = left := by
  obtain ⟨elements, rfl, rfl⟩ := changeSubOfAll_eq first
  obtain ⟨others, rfl, rfl⟩ := changeSubOfAll_eq second
  refine List.map_congr_left fun element member => ?_
  obtain ⟨old, inElements, same⟩ := List.mem_map.mp (kept (List.mem_map_of_mem member))
  cases same
  have regular := regular_of_isKeyed (keyed _ (List.mem_map_of_mem inElements))
  rw [changeSub_changeSub sub regular]

end Elements

/-! ### Any change to an attribute -/

/-- A sub-attribute of a collection is cleared where there are no elements, or changed in all of them.
-/
theorem Target.Rewrites.of_items {sub : Attribute} (inner : target.sub = some sub)
    (unfiltered : target.filter = none) (many : target.definition.multiValued = true)
    (rewrites : target.Rewrites change before after) :
    (storedElements (before.slot? target.definition.name) = [] ∧ change.value? = none ∧
        after = before) ∨
      ∃ changed, storedElements (before.slot? target.definition.name) ≠ [] ∧
        changeSubOfAll change sub (storedElements (before.slot? target.definition.name)) =
          (changed, true) ∧
        after = storeItems target.definition.name (changed.filter Json.isPresent) before := by
  cases rewrites with
  | untouched _ _ _ _ nothing noItems => exact .inl ⟨noItems, nothing, rfl⟩
  | subOfItems _ isSub _ _ someItems complete =>
    rw [inner] at isSub
    cases isSub
    exact .inr ⟨_, someItems, complete, rfl⟩
  | removed _ whole | added _ whole | replaced _ whole | merged _ whole | overwritten _ whole =>
    rw [inner] at whole
    cases whole
  | subOfValue _ _ single =>
    rw [many] at single
    cases single
  | selected filtered =>
    rw [unfiltered] at filtered
    cases filtered

/-- **A change that is made twice** leaves what it has left the first time. -/
theorem applyInContainer_again (keyed : Json.IsKeyed (.object before))
    (first : applyInContainer target change before = .ok () between)
    (second : applyInContainer target change between = .ok () after) : after = between := by
  have regular := regular_of_isKeyed keyed
  obtain ⟨_, rewrites⟩ := applyInContainer_eq_ok first
  obtain ⟨_, again⟩ := applyInContainer_eq_ok second
  have keyedItems (item : Json)
      (member : item ∈ storedElements (before.slot? target.definition.name)) : item.IsKeyed :=
    isKeyed_of_mem_storedElements keyed member
  cases filtered : target.filter with
  | some filter =>
    obtain ⟨_, changed, selected, rfl⟩ := rewrites.of_filter filtered
    obtain ⟨matching, changedAgain, selectedAgain, rfl⟩ := again.of_filter filtered
    obtain ⟨_, inItems, _⟩ := List.any_eq_true.mp matching
    rw [storedElements_storeItems regular (List.ne_nil_of_mem inItems)] at matching selectedAgain
    rw [changeSelected_again keyedItems selected selectedAgain matching]
    exact storeItems_storeItems regular changed
  | none =>
    cases inner : target.sub with
    | none => exact rewrites.again_of_whole keyed filtered inner again
    | some sub =>
      cases many : target.definition.multiValued with
      | false =>
        have written := rewrites.of_sub inner filtered many
        rw [again.of_sub inner filtered many, written]
        exact changeSubOfValue_changeSubOfValue sub change keyed
      | true =>
        rcases rewrites.of_items inner filtered many with ⟨_, _, rfl⟩ | ⟨changed, _, complete, rfl⟩
        · -- Nothing has been changed, so the second change is the first one.
          rw [first] at second
          cases second
          rfl
        · rcases again.of_items inner filtered many with
            ⟨_, _, rfl⟩ | ⟨changedAgain, some, completeAgain, rfl⟩
          · rfl
          · rw [storedElements_storeItems regular some] at completeAgain
            rw [changeSubOfAll_again keyedItems complete (List.filter_subset_self _) completeAgain,
              List.filter_filter]
            simpa using storeItems_storeItems regular (changed.filter Json.isPresent)

end Scim
