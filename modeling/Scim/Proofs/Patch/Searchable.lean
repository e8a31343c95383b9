import Scim.Proofs.Filter.Equality
import Scim.Proofs.Filter.Lookup
import Scim.Proofs.Patch.Commits
import Scim.Proofs.Patch.Extension
import Scim.Proofs.Patch.Values
import Scim.Proofs.Resource.Distinct

/-!
# What is written is found

A scalar that an operation has written is found by a filter that compares the same path with it. The
two engines agree on what a path is bound to and on the object that holds the attribute; what remains
is that each way of writing leaves the value where the filter collects values, and that a value that
an attribute accepts equals itself under that attribute.
-/

namespace Scim

open Object

/-! ### Collected values -/

namespace Json

variable {stored : Option Json} {value item : Json}

theorem isPresent_of_mem_flatten (member : item ∈ flatten stored) (present : item.isPresent = true) :
    stored.any isPresent = true := by
  cases stored with
  | none => cases member
  | some value =>
    cases value with
    | array items =>
      exact isPresent_array_iff.mpr ⟨item, (List.mem_filter.mp member).1, present⟩
    | null => cases member
    | _ =>
      rw [List.mem_singleton.mp member] at present
      exact present

theorem isPresent_of_mem_subValues {sub : String} (member : item ∈ subValues stored sub)
    (present : item.isPresent = true) : stored.any isPresent = true := by
  obtain ⟨value, collected, member⟩ := List.mem_flatMap.mp member
  refine isPresent_of_mem_flatten collected ?_
  cases value with
  | object element =>
    -- What is found in an element is held by it.
    have has : Object.has element sub = true := isPresent_of_mem_flatten member present
    exact Object.holdsAny_of_has has
  | _ => cases member

theorem isPresent_of_mem_valuesOf {sub : Option Attribute} (member : item ∈ valuesOf stored sub)
    (present : item.isPresent = true) : stored.any isPresent = true := by
  cases sub with
  | none => exact isPresent_of_mem_flatten member present
  | some sub => exact isPresent_of_mem_subValues member present

/-- What stands in one element is among the values of all elements. -/
theorem mem_subValues_array {items : List Json} {element : Object} {sub : String}
    (member : .object element ∈ items) (found : value ∈ flatten (element.attribute? sub)) :
    value ∈ subValues (some (.array items)) sub :=
  List.mem_flatMap.mpr ⟨.object element, List.mem_filter.mpr ⟨member, rfl⟩, found⟩

theorem mem_subValues_object {element : Object} {sub : String}
    (found : value ∈ flatten (element.attribute? sub)) :
    value ∈ subValues (some (.object element)) sub :=
  List.mem_flatMap.mpr ⟨.object element, List.mem_singleton_self _, found⟩

/-- Equal scalars hold something together. -/
theorem isPresent_of_same (scalar : value.isScalar = true) (present : value.isPresent = true)
    (same : item.same value = true) : item.isPresent = true := by
  cases value with
  | bool b => exact eq_of_same_bool same ▸ rfl
  | number b =>
    obtain ⟨a, rfl, _⟩ := exists_of_same_number same
    rfl
  | string text => exact eq_of_same_string same ▸ present
  | null => cases present
  | array items => cases scalar
  | object entries => cases scalar

theorem isNull_eq_false_of_isPresent (present : value.isPresent = true) : value.isNull = false := by
  cases value with
  | null => cases present
  | _ => rfl

end Json

namespace Filter

theorem IsScalar.isScalar {value : Json} (scalar : IsScalar value) : value.isScalar = true := by
  cases value with
  | array items => cases scalar
  | object entries => cases scalar
  | _ => rfl

/-- A comparison for equality finds a value that is equal to an accepted literal. -/
theorem isMatch_of_same {view : View} {reference : Reference} {resolved : Resolved} {object : Object}
    {value item : Json} (bound : view.resolveAttribute? reference = some resolved)
    (accepted : resolved.target.accepts value = true) (scalar : IsScalar value)
    (present : value.isPresent = true)
    (collected : item ∈ Json.valuesOf (resolved.value? object) resolved.sub)
    (same : item.same value = true) :
    (Filter.compare reference .eq value).isMatch view (.object object) = true := by
  have equal := Operator.holdsForValue?_of_same accepted scalar same
  have simple := Attribute.isComplex_eq_false_of_accepts accepted
  rw [isMatch_compare bound simple]
  unfold Operator.holdsForValues
  cases value with
  | null => cases present
  | _ => exact List.any_eq_true.mpr ⟨item, collected, by rw [equal]; rfl⟩

end Filter

/-! ### Written values -/

section Written

variable {target : Target} {change : Change} {value : Json} {before after : Object}

/-- A scalar that has passed the check of an operation is accepted by what the operation is aimed
at. -/
theorem Target.accepts_of_checkValue (written : change.value? = some value)
    (scalar : value.isScalar = true) (checked : target.checkValue change = .ok ()) :
    (target.sub.getD target.definition).accepts value = true := by
  rw [checkValue, written] at checked
  cases inner : target.sub with
  | some sub =>
    simp only [inner] at checked
    exact (Attribute.check_scalar_eq_ok_iff scalar).mp checked
  | none =>
    simp only [inner] at checked
    cases filtered : target.filter with
    | some filter =>
      simp only [filtered] at checked
      exact (Attribute.check_scalar_eq_ok_iff scalar).mp checked
    | none =>
      simp only [filtered] at checked
      split at checked
      · split at checked
        · cases scalar
        · exact (Attribute.check_scalar_eq_ok_iff scalar).mp checked
        · cases checked
      · exact (Attribute.check_scalar_eq_ok_iff scalar).mp checked

/-- Only an array can take the place of a collection. -/
theorem Target.checkValue_replace_ne_ok (filtered : target.filter = none) (inner : target.sub = none)
    (many : target.definition.multiValued = true) (scalar : value.isScalar = true) :
    target.checkValue (.replace value) ≠ .ok () := by
  intro checked
  simp only [checkValue, Change.value?, inner, filtered, many, if_true] at checked
  cases value with
  | array items => cases scalar
  | _ => cases checked

theorem mem_addItems_of_mem {collection : List Json} (items : List Json)
    (member : value ∈ collection) : value ∈ addItems collection items := by
  induction items generalizing collection with
  | nil => exact member
  | cons head rest ih =>
    rw [addItems]
    split
    · exact ih member
    · exact ih (List.mem_append_left [head] member)

/-- An item that is added is in the collection afterwards, or an equal one is. -/
theorem exists_same_mem_addItems (collection : List Json) {items : List Json} (member : value ∈ items) :
    ∃ item ∈ addItems collection items, item.same value = true := by
  induction items generalizing collection with
  | nil => cases member
  | cons head rest ih =>
    rw [addItems]
    rcases List.mem_cons.mp member with rfl | behind
    · split
      next known =>
        obtain ⟨item, there, same⟩ := List.any_eq_true.mp known
        exact ⟨item, mem_addItems_of_mem rest there, same⟩
      · have there := List.mem_append_right collection (List.mem_singleton_self value)
        exact ⟨value, mem_addItems_of_mem rest there, Json.same_refl value⟩
    · split
      · exact ih collection behind
      · exact ih (collection ++ [head]) behind

theorem attribute?_changeSub (written : change.value? = some value) (sub : Attribute)
    (element : Object) :
    Object.attribute? (changeSub change sub element) sub.name = some value := by
  rw [changeSub, written]
  exact attribute?_setAttribute element sub.name value

/-- An element whose sub-attribute has been written holds something and yields the value. -/
theorem changeSub_shows (written : change.value? = some value) (scalar : value.isScalar = true)
    (present : value.isPresent = true) (sub : Attribute) (element : Object) :
    (Json.object (changeSub change sub element)).isPresent = true ∧
      value ∈ Json.flatten (Object.attribute? (changeSub change sub element) sub.name) := by
  have read := attribute?_changeSub written sub element
  constructor
  · have has : (changeSub change sub element).has sub.name = true := by
      rw [has, read]
      exact present
    exact holdsAny_of_has has
  · rw [read, Json.flatten_of_scalar scalar present]
    exact List.mem_singleton_self value

/-- What is added to a collection is found in it. -/
theorem addToCollection_shows (name : String) (scalar : value.isScalar = true)
    (present : value.isPresent = true) (container : Object) :
    ∃ item ∈ Json.flatten (Object.attribute? (addToCollection name value container) name),
      item.same value = true := by
  have one : addedItems value = [value] := by
    cases value with
    | array items => cases scalar
    | _ => rfl
  obtain ⟨item, member, same⟩ :=
    exists_same_mem_addItems (storedItems (container.slot? name)) (List.mem_singleton_self value)
  have someItems : (addItems (storedItems (container.slot? name)) [value]).isEmpty = false :=
    List.isEmpty_eq_false_iff.mpr (List.ne_nil_of_mem member)
  have notNull := Json.isNull_eq_false_of_isPresent (Json.isPresent_of_same scalar present same)
  refine ⟨item, ?_, same⟩
  simp only [addToCollection, one, someItems, Bool.false_eq_true, if_false, attribute?_setAttribute]
  exact List.mem_filter.mpr ⟨member, by simp [notNull]⟩

/-- An element whose sub-attribute has been written is not dropped, and is found. -/
theorem storeItems_shows {name : String} {sub : Attribute} {stored : Json} {element : Object}
    {changed : List Json} (unambiguous : before.Unambiguous)
    (there : before.attribute? name = some stored) (written : change.value? = some value)
    (scalar : value.isScalar = true) (present : value.isPresent = true)
    (member : .object (changeSub change sub element) ∈ changed) :
    value ∈ Json.subValues
      (Object.attribute? (storeItems name (changed.filter Json.isPresent) before) name) sub.name := by
  obtain ⟨holds, found⟩ := changeSub_shows written scalar present sub element
  have kept := List.mem_filter.mpr ⟨member, holds⟩
  have someItems : (changed.filter Json.isPresent).isEmpty = false :=
    List.isEmpty_eq_false_iff.mpr (List.ne_nil_of_mem kept)
  rw [attribute?_storeItems unambiguous there, someItems, if_neg Bool.false_ne_true]
  exact Json.mem_subValues_array kept found

/-- **Each way of writing leaves the value where a filter collects values**, or finds an equal one
there already. -/
theorem Target.Rewrites.exists_same (rewrites : target.Rewrites change before after)
    (unambiguous : before.Unambiguous) (written : change.value? = some value)
    (scalar : value.isScalar = true) (present : value.isPresent = true)
    (checked : target.checkValue change = .ok ())
    (applicable : target.filter.isSome = true → target.definition.isComplex = true) :
    ∃ item ∈ Json.valuesOf (after.attribute? target.definition.name) target.sub,
      item.same value = true := by
  have itself := Json.same_refl value
  have accepted := Target.accepts_of_checkValue written scalar checked
  cases rewrites with
  | removed _ _ removed =>
    rw [removed] at written
    cases written
  | added _ inner _ added =>
    rw [added] at written
    cases written
    rw [inner]
    exact addToCollection_shows target.definition.name scalar present before
  | replaced filtered inner many replaced =>
    rw [replaced] at written checked
    cases written
    exact absurd checked (checkValue_replace_ne_ok filtered inner many scalar)
  | merged _ _ _ _ merged =>
    rw [written] at merged
    cases merged
    cases scalar
  | overwritten _ inner _ _ overwritten =>
    rw [written] at overwritten
    cases overwritten
    refine ⟨value, ?_, itself⟩
    rw [inner, attribute?_setAttribute, Json.valuesOf, Json.flatten_of_scalar scalar present]
    exact List.mem_singleton_self value
  | untouched _ _ _ _ nothing =>
    rw [written] at nothing
    cases nothing
  | subOfItems _ inner _ _ someItems complete =>
    -- There are elements, and the first of them is found already.
    have there := (slot?_eq_attribute? unambiguous).symm.trans (eq_array_of_storedElements someItems)
    obtain ⟨elements, isItems, rfl⟩ := changeSubOfAll_eq complete
    cases elements with
    | nil => exact absurd isItems someItems
    | cons element rest =>
      rw [inner]
      exact ⟨value, storeItems_shows unambiguous there written scalar present List.mem_cons_self, itself⟩
  | @subOfValue sub _ inner _ =>
    have read := attribute?_setSub target.definition.name unambiguous sub value
    have found (parent : Object) :
        value ∈ Json.flatten (Object.attribute? (parent.setAttribute sub.name value) sub.name) := by
      rw [attribute?_setAttribute, Json.flatten_of_scalar scalar present]
      exact List.mem_singleton_self value
    refine ⟨value, ?_, itself⟩
    rw [inner, changeSubOfValue, written]
    simp only [read]
    exact Json.mem_subValues_object (found _)
  | @selected filter changed filtered matching selected =>
    cases inner : target.sub with
    | none =>
      -- Elements are complex, and no scalar can stand in the place of one.
      have simple := Attribute.isComplex_eq_false_of_accepts accepted
      rw [inner, Option.getD_none, applicable (filtered ▸ rfl)] at simple
      cases simple
    | some sub =>
      obtain ⟨item, member, selects⟩ := List.any_eq_true.mp matching
      obtain ⟨element, rfl⟩ := exists_object_of_matchesElement selects
      have someItems := List.ne_nil_of_mem member
      have there := (slot?_eq_attribute? unambiguous).symm.trans (eq_array_of_storedElements someItems)
      -- The selected element is among the rewritten ones.
      have rewritten : .object (changeSub change sub element) ∈
          (storedElements (before.slot? target.definition.name)).map
            (changeElement (filter.matchesElement target.definition) change sub) :=
        List.mem_map.mpr ⟨.object element, member, if_pos selects⟩
      rw [changeSelected_sub inner selected]
      exact ⟨value, storeItems_shows unambiguous there written scalar present rewritten, itself⟩

end Written

/-! ### Paths -/

section Path

variable {view : View} {operation : PatchOperation} {path : PatchPath} {value : Json}

/-- The attribute or sub-attribute that a path ends at. -/
def PatchPath.ending (path : PatchPath) : Reference :=
  match path.sub with
  | some name => path.reference.withSub name
  | none => path.reference

/-- A path and the reference to what it ends at are bound to the same. -/
theorem PatchPath.resolveAttribute?_ending {target : Target}
    (plain : path.sub.isSome = true → path.reference.sub = none)
    (bound : Target.resolve view path.reference path.filter path.sub path.text = .ok target) :
    ∃ resolved, view.resolveAttribute? path.ending = some resolved ∧
      target.container = resolved.member.key? ∧ target.definition = resolved.definition ∧
      target.sub = resolved.sub ∧
      (target.filter.isSome = true → target.definition.isComplex = true) := by
  obtain ⟨resolved, inner, found, foundSub, applicable, rfl⟩ := Target.resolve_eq_ok bound
  unfold ending
  rcases Target.resolveSub_eq_ok foundSub with ⟨noName, rfl⟩ | ⟨name, sub, behind, named, rfl⟩
  · rw [noName]
    exact ⟨resolved, found, rfl, rfl, rfl, fun filtered => (applicable filtered).2⟩
  · rw [behind] at plain ⊢
    have deeper := View.resolveAttribute?_withSub (plain rfl) named found
    exact ⟨_, deeper, rfl, rfl, rfl, fun filtered => (applicable filtered).2⟩

/-- A scalar cannot be written to an extension as a whole. -/
theorem applyExtension_ne_ok {extension : Schema} {before after : Object}
    (written : operation.written? = some value) (scalar : value.isScalar = true) :
    applyExtension view operation.verb extension operation.value before ≠ .ok () after := by
  intro applied
  simp only [applyExtension, step_bind_eq_ok_iff, step_check_eq_ok_iff] at applied
  obtain ⟨change, _, ⟨made, rfl⟩, applied⟩ := applied
  rw [(Change.value?_of_ofOperation made).trans written] at applied
  cases value with
  | object entries => cases scalar
  | _ => exact absurd applied step_throw_ne_ok

/-- **Patches write where filters read**: a scalar that an operation has written under a path is found
by a comparison of what the path ends at with that scalar. The path may be qualified or not and in
any case, lead to the base or to an extension, select elements, and end at a sub-attribute of a
single value or of many. That it ends at a simple attribute, and that an operation on a multi-valued
one adds, need not be asked for: no other operation that writes a scalar succeeds. Nor does it matter
whether the view is well-formed. -/
theorem patch_isFound (limits : Limits) (view : View) (operation : PatchOperation) (path : PatchPath)
    (resource value : Json) (distinct : resource.isDistinct = true)
    (isPath : operation.path = some path)
    (plain : path.sub.isSome = true → path.reference.sub = none)
    (writes : operation.verb ≠ .remove) (isValue : operation.value = some value)
    (scalar : Filter.IsScalar value) (present : value.isPresent = true)
    (done : (patch limits view [operation] resource).error = none) :
    (Filter.compare path.ending .eq value).isMatch view
      (patch limits view [operation] resource).resource = true := by
  obtain ⟨before, after, rfl, applied, left⟩ := patch_singleton_eq_ok done
  rw [left]
  have unambiguous := Json.unambiguous_of_isDistinct distinct
  have written : operation.written? = some value := by
    have notNull := Json.isNull_eq_false_of_isPresent present
    simp [PatchOperation.written?, writes, isValue, notNull]
  cases whole : path.wholeExtension? view with
  | some extension =>
    simp only [PatchOperation.apply, isPath, whole] at applied
    exact absurd applied (applyExtension_ne_ok written scalar.isScalar)
  | none =>
    obtain ⟨target, change, bound, made, applied⟩ :=
      PatchOperation.apply_eq_ok isPath whole applied
    have changes := (Change.value?_of_ofOperation made).trans written
    obtain ⟨resolved, found, place, sameDefinition, sameSub, applicable⟩ :=
      PatchPath.resolveAttribute?_ending plain bound
    obtain ⟨_, checked, ⟨_, nothing, _⟩ | ⟨changed, stepped, leaves⟩⟩ :=
      applyTarget_eq_ok place unambiguous applied
    · rw [changes] at nothing
      cases nothing
    · -- The value stands in the object that the change has left, which is why that is not dropped.
      have accepted := Target.accepts_of_checkValue changes scalar.isScalar checked
      have inside := Json.unambiguous_container distinct resolved
      obtain ⟨_, rewrites⟩ := applyInContainer_eq_ok stepped
      obtain ⟨item, collected, same⟩ :=
        rewrites.exists_same inside changes scalar.isScalar present checked applicable
      rw [sameDefinition, sameSub] at collected accepted
      have holds := Json.isPresent_of_same scalar.isScalar present same
      have has := Json.isPresent_of_mem_valuesOf collected holds
      rw [← leaves.value?_of_has has] at collected
      exact Filter.isMatch_of_same found accepted scalar present collected same

/-- A sub-attribute of the selected elements of an extension attribute, by names in another case. -/
theorem patch_isFound_selected :
    let cards : Attribute :=
      { name := "cards", type := .complex, multiValued := true,
        subAttributes := [.simple "colour" .string, .simple "number" .integer] }
    let view := View.ofSchemas { id := "urn:a" } [{ id := "urn:b", attributes := [cards] }]
    let resource : Json := .object [("urn:b", .object [("cards", .array
      [.object [("colour", .string "red")], .object [("colour", .string "blue")]])])]
    let path : PatchPath :=
      { reference := ⟨some "urn:B", "Cards", none⟩
        filter := some (.compare ⟨none, "colour", none⟩ .eq (.string "red")), sub := some "NUMBER" }
    let operation : PatchOperation :=
      { verb := .replace, path := some path, value := some (.number (.integer 7)) }
    path.ending = ⟨some "urn:B", "Cards", some "NUMBER"⟩ ∧
      (Filter.compare path.ending .eq (.number (.integer 7))).isMatch view
        (patch {} view [operation] resource).resource = true := by
  have scalar : Filter.IsScalar (.number (.integer 7)) := by
    simp only [Filter.IsScalar, Number.IsRepresentable]
    decide
  have writes : PatchVerb.replace ≠ .remove := by decide
  exact ⟨rfl, patch_isFound {} _ _ _ _ _ rfl rfl (fun _ => rfl) writes rfl scalar rfl rfl⟩

end Path

end Scim
