import Scim.Proofs.Patch.Repeating
import Scim.Proofs.Resource.Solid

/-!
# Removing leaves nothing hollow

When something is removed, what it stood in may be left with nothing: an element of a collection, the
collection, a single value, the object of an extension. Each of them goes with the last that it holds, so
that a resource without hollow parts stays without them. And where a path has been removed, filters find
nothing any more.
-/

namespace Scim

open Object

variable {view : View} {target : Target} {member : Member} {before after : Object}

/-! ### Ways of removing -/

section Removing

variable {name : String} {sub : Attribute} {items : List Json} {container : Object}

theorem isFilled_of_mem_storedElements {stored : Option Json} {item : Json}
    (filled : ∀ value, stored = some value → value.IsFilled) (member : item ∈ storedElements stored) :
    item.IsFilled :=
  Json.isSolid_array_iff.mp (filled _ (eq_array_of_storedElements (List.ne_nil_of_mem member))).2 item
    member

theorem storeItems_puts_filled (each : ∀ item ∈ items, item.IsFilled) :
    Puts name Json.IsFilled container (storeItems name items container) := by
  unfold storeItems
  split
  · exact .removeAttribute
  next someItems =>
    exact .replaceSlot (Json.isFilled_array (fun none => someItems (List.isEmpty_iff.mpr none)) each)

theorem clearSub_puts_filled (filled : ∀ value, container.slot? name = some value → value.IsFilled) :
    Puts name Json.IsFilled container (clearSub name sub container) := by
  unfold clearSub
  split
  next parent stored =>
    simp only []
    split
    next holds => exact .replaceSlot ⟨holds, Json.isSolid_removeAttribute (filled _ stored).2⟩
    · exact .removeAttribute
  · exact .refl container

/-- **Whatever is removed, what stays is filled.** -/
theorem Target.Rewrites.puts_filled
    (filled : ∀ value, before.slot? target.definition.name = some value → value.IsFilled)
    (rewrites : target.Rewrites .remove before after) :
    Puts target.definition.name Json.IsFilled before after := by
  have each (item : Json) (member : item ∈ storedElements (before.slot? target.definition.name)) :=
    isFilled_of_mem_storedElements filled member
  have cleared (sub : Attribute) (element : Object) (solid : (Json.object element).isSolid = true) :
      (Json.object (changeSub .remove sub element)).isSolid = true := Json.isSolid_removeAttribute solid
  cases rewrites with
  | removed => exact .removeAttribute
  | added _ _ _ written | replaced _ _ _ written => cases written
  | merged _ _ _ _ written | overwritten _ _ _ _ written => cases written
  | untouched => exact .refl before
  | @subOfItems sub changed _ _ _ _ _ complete =>
    -- Elements of which nothing is left are dropped, and then the collection if none is left of it.
    have solid := forall_mem_changeSubOfAll complete (fun item member => (each item member).2) (cleared sub)
    refine storeItems_puts_filled fun item member => ?_
    obtain ⟨inChanged, present⟩ := List.mem_filter.mp member
    exact ⟨present, solid item inChanged⟩
  | subOfValue => exact clearSub_puts_filled filled
  | @selected filter changed _ _ selected =>
    refine storeItems_puts_filled fun item member => ?_
    have solid := forall_mem_changeSelected (fun item member => (each item member).2)
      (fun _ _ written => by cases written) (fun sub _ element => cleared sub element) selected
    refine ⟨?_, solid item member⟩
    cases inner : target.sub with
    | none =>
      rw [changeSelected_remove inner rfl selected] at member
      exact (each item (List.mem_filter.mp member).1).1
    | some sub =>
      rw [changeSelected_sub inner selected] at member
      exact (List.mem_filter.mp member).2

end Removing

/-! ### Solid resources -/

section Solid

theorem Object.IsSolid.puts {name : String} (solid : before.IsSolid)
    (puts : Puts name Json.IsFilled before after) : after.IsSolid := by
  intro entry member notSchemas
  rcases puts.entries entry member with old | ⟨_, filled⟩
  · exact solid entry old notSchemas
  · exact filled

theorem Json.isSolid_of_puts {name : String} (solid : (Json.object before).isSolid = true)
    (puts : Puts name Json.IsFilled before after) : (Json.object after).isSolid = true := by
  refine Json.isSolid_object_iff.mpr fun entry member => ?_
  rcases puts.entries entry member with old | ⟨_, filled⟩
  · exact Json.isSolid_object_iff.mp solid entry old
  · exact filled

theorem isSolid_dropExtension (urn : String) (solid : before.IsSolid) :
    Object.IsSolid (unregisterExtension (before.removeAttribute urn) urn) := by
  intro entry member notSchemas
  rcases mem_changeSchemas member with old | ⟨_, isSchemas⟩
  · exact solid entry (mem_removeAttribute old) notSchemas
  · rw [notSchemas] at isSchemas
    cases isSchemas

theorem applyTarget_isSolid (wellFormed : view.WellFormed) (declared : target.IsDeclared view member)
    (keyed : Json.IsKeyed (.object before)) (solid : before.IsSolid)
    (applied : applyTarget target .remove before = .ok () after) : after.IsSolid := by
  obtain ⟨_, _, applies⟩ := applyTarget_applies applied
  cases applies with
  | atTop place applied =>
    obtain rfl := declared.eq_baseMember place
    have notSchemas := wellFormed.freeSchemas target.definition declared.definition
    obtain ⟨_, rewrites⟩ := applyInContainer_eq_ok applied
    exact solid.puts (rewrites.puts_filled fun value => solid.slot notSchemas)
  | skipped => exact solid
  | @inside urn ready container changed place isReady made slot stepped =>
    obtain ⟨_, rfl⟩ := declared.mem_extensionMembers place
    -- Nothing is made for a removal, so the object was there.
    have notMissing : ¬(before.attribute? member.schema.id).all Json.isNull = true :=
      fun missing => nomatch made missing
    rw [if_neg notMissing] at isReady
    subst isReady
    have regular := regular_of_isKeyed keyed
    have there := (slot?_eq_attribute? regular.unambiguous).symm.trans slot
    have notSchemas := wellFormed.notSchemas member declared.member_mem
    have fields := (solid.slot notSchemas slot).2
    obtain ⟨_, rewrites⟩ := applyInContainer_eq_ok stepped
    have puts := rewrites.puts_filled fun value stored => by
      obtain ⟨key, inFields, _⟩ := mem_of_slot? stored
      exact Json.isSolid_object_iff.mp fields (key, value) inFields
    rw [tidyExtension_replaceSlot regular there]
    split
    next holds => exact solid.puts (.replaceSlot ⟨holds, Json.isSolid_of_puts fields puts⟩)
    · exact isSolid_dropExtension _ solid

theorem removeExtension_isSolid {extension : Schema} (solid : before.IsSolid)
    (done : removeExtension extension before = .ok () after) : after.IsSolid := by
  simp only [removeExtension, step_bind_eq_ok_iff, step_get_eq_ok_iff, step_check_eq_ok_iff,
    step_modify_eq_ok_iff] at done
  obtain ⟨_, _, ⟨rfl, rfl⟩, _, _, ⟨_, rfl⟩, removed⟩ := done
  split at removed
  · exact removed ▸ isSolid_dropExtension _ solid
  · exact removed ▸ solid

theorem Change.eq_remove {change : Change} (nothing : change.value? = none) : change = .remove := by
  cases change with
  | remove => rfl
  | add | replace => cases nothing

/-- Steps that write nothing keep a resource solid. -/
theorem isKeptWhere_isSolid (wellFormed : view.WellFormed) :
    view.IsKeptWhere (fun _ _ => False) fun before after =>
      Json.IsKeyed (.object before) ∧ before.IsSolid → Json.IsKeyed (.object after) ∧ after.IsSolid where
  refl _ := id
  trans first second state := second (first state)
  change declared writesNothing _ _ applied := fun ⟨keyed, solid⟩ => by
    obtain rfl := Change.eq_remove (Option.eq_none_iff_forall_ne_some.mpr writesNothing)
    refine ⟨applyTarget_isKeyed wellFormed.valid declared (fun value written => ?_) applied keyed,
      applyTarget_isSolid wellFormed declared keyed solid applied⟩
    exact (writesNothing value written).elim
  removal _ _ _ done := fun ⟨keyed, solid⟩ =>
    ⟨removeExtension_isKeyed done keyed, removeExtension_isSolid solid done⟩

end Solid

/-! ### What is found where something has been removed -/

/-- The shape of the values that an attribute has: an array if there may be many, and an object if the
attribute is complex. -/
inductive Attribute.Shapes (definition : Attribute) : Json → Prop
  | many {items : List Json} : definition.multiValued = true → Shapes definition (.array items)
  | complex {entries : Object} : definition.multiValued = false → definition.isComplex = true →
    Shapes definition (.object entries)
  | simple {value : Json} : definition.multiValued = false → definition.isComplex = false →
    Shapes definition value

theorem Attribute.Shapes.exists_array {definition : Attribute} {value : Json}
    (shapes : definition.Shapes value) (many : definition.multiValued = true) :
    ∃ items, value = .array items := by
  cases shapes with
  | many => exact ⟨_, rfl⟩
  | complex single | simple single =>
    rw [many] at single
    cases single

theorem Attribute.Shapes.exists_object {definition : Attribute} {value : Json}
    (shapes : definition.Shapes value) (single : definition.multiValued = false)
    (complex : definition.isComplex = true) : ∃ entries, value = .object entries := by
  cases shapes with
  | complex => exact ⟨_, rfl⟩
  | many many =>
    rw [single] at many
    cases many
  | simple _ simple =>
    rw [complex] at simple
    cases simple

def Schema.Shapes (schema : Schema) (object : Object) : Prop :=
  ∀ definition ∈ schema.attributes, ∀ value, object.attribute? definition.name = some value →
    definition.Shapes value

/-- The attributes of the base and of the extensions have values of their shape, and extensions are
objects. -/
structure View.Shapes (view : View) (resource : Object) : Prop where
  base : view.base.Shapes resource
  extensions : ∀ member ∈ view.extensionMembers, ∀ value,
    resource.attribute? member.schema.id = some value →
      ∃ fields, value = .object fields ∧ member.schema.Shapes fields

section Found

variable {name : String} {sub : Attribute} {container : Object}

theorem subValues_eq_nil_of_object {element : Object} (gone : element.attribute? name = none) :
    Json.subValues (some (.object element)) name = [] := by
  simp [Json.subValues, Json.flatten, gone]

/-- Once a sub-attribute has been cleared, no value of it is found. -/
theorem subValues_clearSub (keyed : Json.IsKeyed (.object container))
    (isObject : ∀ value, container.attribute? name = some value → ∃ parent, value = .object parent) :
    Json.subValues (Object.attribute? (clearSub name sub container) name) sub.name = [] := by
  have regular := regular_of_isKeyed keyed
  cases stored : container.attribute? name with
  | none =>
    have slot := (slot?_eq_attribute? regular.unambiguous).trans stored
    rw [clearSub_of_not_object (by rw [slot]; rfl), stored]
    rfl
  | some value =>
    obtain ⟨parent, rfl⟩ := isObject value stored
    have slot := (slot?_eq_attribute? regular.unambiguous).trans stored
    have regularParent := regular_of_isKeyed (keyed.of_slot? slot)
    rw [clearSub_of_object slot]
    split
    · rw [attribute?_replaceSlot_self regular.unambiguous stored]
      exact subValues_eq_nil_of_object (attribute?_removeAttribute_self regularParent.unambiguous rfl)
    · rw [attribute?_removeAttribute_self regular.unambiguous rfl]
      rfl

/-- Nor is one found once it has been cleared in all elements. -/
theorem subValues_storeItems {items : List Json} (unambiguous : container.Unambiguous) {stored : Json}
    (there : container.attribute? name = some stored)
    (gone : ∀ item ∈ items, ∃ element : Object, item = .object element ∧
      element.attribute? sub.name = none) :
    Json.subValues (Object.attribute? (storeItems name items container) name) sub.name = [] := by
  rw [attribute?_storeItems unambiguous there]
  split
  · rfl
  · refine List.flatMap_eq_nil_iff.mpr fun item member => ?_
    obtain ⟨element, rfl, gone⟩ := gone item (List.mem_filter.mp member).1
    simp [Json.flatten, gone]

/-- **Where a target has been removed, no value is found.** -/
theorem valuesOf_removed (keyed : Json.IsKeyed (.object before)) (unfiltered : target.filter = none)
    (complex : target.sub.isSome = true → target.definition.isComplex = true)
    (shapes : ∀ value, before.attribute? target.definition.name = some value →
      target.definition.Shapes value)
    (rewrites : target.Rewrites .remove before after) :
    Json.valuesOf (after.attribute? target.definition.name) target.sub = [] := by
  have regular := regular_of_isKeyed keyed
  cases inner : target.sub with
  | none =>
    have gone := rewrites.named?_of_whole regular unfiltered inner
    rw [(regular.of_edits rewrites.edits).attribute?_eq_named?, gone]
    rfl
  | some sub =>
    rw [inner] at complex
    cases many : target.definition.multiValued with
    | false =>
      rw [rewrites.of_sub inner unfiltered many]
      exact subValues_clearSub keyed fun value stored =>
        (shapes value stored).exists_object many (complex rfl)
    | true =>
      rcases rewrites.of_items inner unfiltered many with
        ⟨noItems, _, rfl⟩ | ⟨changed, someItems, complete, rfl⟩
      · -- An array without elements has no values, and nothing else may stand in its place.
        rw [slot?_eq_attribute? regular.unambiguous] at noItems
        cases stored : after.attribute? target.definition.name with
        | none => rfl
        | some value =>
          obtain ⟨items, rfl⟩ := (shapes value stored).exists_array many
          rw [stored] at noItems
          obtain rfl : items = [] := noItems
          rfl
      · have slot := eq_array_of_storedElements someItems
        have there := (slot?_eq_attribute? regular.unambiguous).symm.trans slot
        refine subValues_storeItems regular.unambiguous there fun item member => ?_
        obtain ⟨elements, isItems, rfl⟩ := changeSubOfAll_eq complete
        obtain ⟨element, inElements, rfl⟩ := List.mem_map.mp (List.mem_filter.mp member).1
        have inItems : .object element ∈ storedElements (before.slot? target.definition.name) :=
          isItems ▸ List.mem_map_of_mem inElements
        have regularElement := regular_of_isKeyed (isKeyed_of_mem_storedElements keyed inItems)
        exact ⟨_, rfl, attribute?_removeAttribute_self regularElement.unambiguous rfl⟩

end Found

/-! ### Operations -/

section Operation

variable {limits : Limits} {operation : PatchOperation} {path : PatchPath}

/-- Without a path an operation that succeeds writes something. -/
theorem PatchOperation.exists_path (writesNothing : operation.written? = none)
    (applied : operation.apply view before = .ok () after) : ∃ path, operation.path = some path := by
  cases isPath : operation.path with
  | some path => exact ⟨path, rfl⟩
  | none =>
    simp only [apply, isPath] at applied
    split at applied
    · exact absurd applied step_throw_ne_ok
    next notRemove =>
      rw [written?, if_neg notRemove] at writesNothing
      cases isValue : operation.value with
      | none =>
        rw [isValue] at applied
        exact absurd applied step_throw_ne_ok
      | some value =>
        rw [isValue] at applied writesNothing
        cases value with
        | object entries => cases writesNothing
        | _ => exact absurd applied step_throw_ne_ok

theorem PatchOperation.isSolid (wellFormed : view.WellFormed) (keyed : Json.IsKeyed (.object before))
    (solid : before.IsSolid) (writesNothing : operation.written? = none)
    (applied : operation.apply view before = .ok () after) : after.IsSolid := by
  obtain ⟨path, isPath⟩ := exists_path writesNothing applied
  refine ((isKeptWhere_isSolid wellFormed).operation operation ?_ before after applied ⟨keyed, solid⟩).2
  intro target value writes
  cases writes with
  | atPath _ _ _ written | inExtension _ _ written =>
    rw [writesNothing] at written
    cases written
  | entry noPath | extensionEntry noPath =>
    rw [isPath] at noPath
    cases noPath

/-- The attributes in the object of a schema have their shape. -/
theorem View.Shapes.of_container? {resolved : Resolved} {fields : Object} (shapes : view.Shapes before)
    (member_mem : resolved.member ∈ view.members)
    (isContainer : resolved.container? before = some fields) :
    resolved.member.schema.Shapes fields := by
  rcases Resolved.container?_eq_some isContainer with ⟨key, rfl⟩ | ⟨urn, key, stored⟩
  · rw [eq_baseMember_of_key? member_mem key]
    exact shapes.base
  · obtain ⟨extension, rfl⟩ := mem_extensionMembers_of_key? member_mem key
    obtain ⟨_, same, shapesFields⟩ := shapes.extensions _ extension _ stored
    cases same
    exact shapesFields

theorem View.Shapes.container {resolved : Resolved} (shapes : view.Shapes before)
    (member_mem : resolved.member ∈ view.members) :
    resolved.member.schema.Shapes ((resolved.container? before).getD []) := by
  cases isContainer : resolved.container? before with
  | some fields => exact shapes.of_container? member_mem isContainer
  | none =>
    intro definition _ value stored
    cases stored

/-- Only a complex attribute has a sub-attribute that could be removed. -/
theorem Target.isComplex_of_resolve {reference : Reference} {filter : Option Filter}
    {sub : Option String} {text : String} (wellFormed : view.WellFormed)
    (bound : Target.resolve view reference filter sub text = .ok target)
    (hasSub : target.sub.isSome = true) : target.definition.isComplex = true := by
  obtain ⟨member, declared⟩ := isDeclared_of_resolve bound
  obtain ⟨inner, isInner⟩ := Option.isSome_iff_exists.mp hasSub
  have valid := wellFormed.valid member declared.member_mem
  exact Schema.isComplex_of_mem_subAttributes valid declared.definition (declared.sub inner isInner)

/-- Once a path has been removed, a filter finds nothing under it. -/
theorem PatchOperation.isMatch_present (wellFormed : view.WellFormed)
    (keyed : Json.IsKeyed (.object before)) (shapes : view.Shapes before)
    (writesNothing : operation.written? = none) (isPath : operation.path = some path)
    (attributewise : path.wholeExtension? view = none) (unfiltered : path.filter = none)
    (plain : path.sub.isSome = true → path.reference.sub = none)
    (applied : operation.apply view before = .ok () after) :
    (Filter.present path.ending).isMatch view (.object after) = false := by
  obtain ⟨target, change, bound, made, applied⟩ := apply_eq_ok isPath attributewise applied
  obtain rfl := Change.eq_remove ((Change.value?_of_ofOperation made).trans writesNothing)
  obtain ⟨resolved, found, place, sameDefinition, sameSub, _⟩ :=
    PatchPath.resolveAttribute?_ending plain bound
  obtain ⟨member_mem, definition_mem⟩ := View.resolveAttribute?_eq_some found
  rw [← sameDefinition] at definition_mem
  have nothing : Json.valuesOf (resolved.value? after) resolved.sub = [] := by
    obtain ⟨_, _, ⟨_, _, missing, rfl⟩ | ⟨changed, stepped, leaves⟩⟩ :=
      applyTarget_eq_ok place (regular_of_isKeyed keyed).unambiguous applied
    · -- Where there is no object, there is nothing to be found in the first place.
      rw [Resolved.value?, missing]
      exact Json.valuesOf_none resolved.sub
    · obtain ⟨_, rewrites⟩ := applyInContainer_eq_ok stepped
      have noFilter : target.filter = none := by
        obtain ⟨_, _, _, _, _, rfl⟩ := Target.resolve_eq_ok bound
        exact unfiltered
      have removed := valuesOf_removed (keyed.container resolved) noFilter
        (Target.isComplex_of_resolve wellFormed bound)
        (shapes.container member_mem target.definition definition_mem) rewrites
      rw [sameDefinition, sameSub] at removed
      -- What is read is what has been left, unless the object has been dropped.
      rcases leaves.value?_cases with read | read
      · rw [read, removed]
      · rw [read, Json.valuesOf_none]
  rw [Filter.isMatch_present found, nothing]
  rfl

/-- **Removing leaves nothing hollow, and nothing to be found**: if an operation that removes, or
replaces with nothing, succeeds on a resource in which every entry holds something, at every level and in
every array, apart from `schemas`, then so does every entry of the outcome. If its path ends at an
attribute or a sub-attribute, and selects no elements, a filter that asks whether anything is present
there does not match the outcome. -/
theorem patch_leavesNothing (limits : Limits) (view : View) (operation : PatchOperation)
    (before after : Object) (wellFormed : view.WellFormed) (ordered : (Json.object before).Ordered)
    (distinct : (Json.object before).isDistinct = true) (shapes : view.Shapes before)
    (solid : before.IsSolid) (writesNothing : operation.written? = none)
    (done : patch limits view [operation] (.object before) = ⟨.object after, none⟩) :
    after.IsSolid ∧ ∀ path, operation.path = some path → path.wholeExtension? view = none →
      path.filter = none → (path.sub.isSome = true → path.reference.sub = none) →
        (Filter.present path.ending).isMatch view (.object after) = false := by
  obtain ⟨_, same, applied⟩ := exists_of_patch_singleton done
  cases same
  have keyed : Json.IsKeyed (.object before) := ⟨ordered, distinct⟩
  refine ⟨operation.isSolid wellFormed keyed solid writesNothing applied, ?_⟩
  intro path isPath attributewise unfiltered plain
  exact operation.isMatch_present wellFormed keyed shapes writesNothing isPath attributewise unfiltered
    plain applied

/-- With the only sub-attribute of its only element, a collection goes, its extension and the entry in
the list. -/
theorem patch_leavesNothing_badges :
    let badges : Attribute :=
      { name := "badges", type := .complex, multiValued := true, subAttributes := [.simple "type" .string] }
    let view := View.ofSchemas { id := "urn:a", attributes := [.simple "title" .string] }
      [{ id := "urn:b", attributes := [badges] }]
    let path : PatchPath := { reference := ⟨some "URN:B", "badges", some "TYPE"⟩ }
    let operation : PatchOperation := { verb := .replace, path := some path, value := some .null }
    let before : Object := [("URN:b", .object [("Badges", .array [.object [("type", .string "x")]])]),
      ("schemas", .array [.string "urn:a", .string "urn:b"]), ("title", .string "t")]
    let after : Object := [("schemas", .array [.string "urn:a"]), ("title", .string "t")]
    patch {} view [operation] (.object before) = ⟨.object after, none⟩ ∧ after.IsSolid ∧
      (Filter.present path.ending).isMatch view (.object after) = false := by
  refine (and_iff_left_of_imp fun done => ?_).mpr rfl
  have ⟨solid, absent⟩ :=
    patch_leavesNothing {} _ _ _ _ (by decide) ?ordered rfl ?shapes (by decide) rfl done
  exact ⟨solid, absent _ rfl rfl rfl nofun⟩
  case ordered =>
    simp only [Json.Ordered, Json.OrderedEntries, Json.OrderedItems, Object.Sorted, and_true]
    decide
  case shapes =>
    constructor
    · intro definition declared value _
      rw [List.mem_singleton.mp declared]
      exact .simple rfl rfl
    · intro member isMember value stored
      rw [List.mem_singleton.mp isMember] at stored ⊢
      cases stored
      refine ⟨_, rfl, fun definition declared value stored => ?_⟩
      rw [List.mem_singleton.mp declared] at stored ⊢
      cases stored
      exact .many rfl

end Operation

end Scim
