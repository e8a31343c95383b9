import Scim.Proofs.Patch.Commits
import Scim.Proofs.Patch.Faults
import Scim.Proofs.Resource.Distinct

/-!
# Operations on selected elements

A value filter in a path selects the elements that the same filter finds in a search. The elements
that it selects are dropped, replaced, or changed in one sub-attribute; the others stay as they are
and in their order.
-/

namespace Scim

open Object

/-! ### What becomes of the elements -/

/-- A change of an element that concerns one sub-attribute only, which holds what has been written
afterwards, or nothing. -/
def Attribute.ChangesSub (definition : Attribute) (name : String) (written : Option Json)
    (before after : Object) : Prop :=
  ∃ sub, definition.sub? name = some sub ∧ ChangesOnly sub.name before after ∧
    after.attribute? sub.name = written

/-- What becomes of the elements of an attribute if those that a filter selects are changed, in the
sub-attribute `sub` or as a whole, to what is written or, if nothing is, by a removal. -/
inductive ElementUpdate (definition : Attribute) (filter : Filter) (sub : Option String)
    (written : Option Json) : List Json → List Json → Prop
  | nil : ElementUpdate definition filter sub written [] []
  | kept {item : Json} {items after : List Json} :
    filter.matchesElement definition item = false → sub = none ∨ item.isPresent = true →
    ElementUpdate definition filter sub written items after →
    ElementUpdate definition filter sub written (item :: items) (item :: after)
  /-- Elements that hold nothing go with those of which nothing is left. -/
  | swept {item : Json} {items after : List Json} :
    filter.matchesElement definition item = false → sub.isSome = true → item.isPresent = false →
    ElementUpdate definition filter sub written items after →
    ElementUpdate definition filter sub written (item :: items) after
  | dropped {item : Json} {items after : List Json} :
    filter.matchesElement definition item = true → sub = none → written = none →
    ElementUpdate definition filter sub written items after →
    ElementUpdate definition filter sub written (item :: items) after
  | replaced {item value : Json} {items after : List Json} :
    filter.matchesElement definition item = true → sub = none → written = some value →
    ElementUpdate definition filter sub written items after →
    ElementUpdate definition filter sub written (item :: items) (value :: after)
  | changed {name : String} {element result : Object} {items after : List Json} :
    filter.matchesElement definition (.object element) = true → sub = some name →
    definition.ChangesSub name written element result → result.holdsAny = true →
    ElementUpdate definition filter sub written items after →
    ElementUpdate definition filter sub written (.object element :: items) (.object result :: after)
  | emptied {name : String} {element result : Object} {items after : List Json} :
    filter.matchesElement definition (.object element) = true → sub = some name →
    definition.ChangesSub name written element result → result.holdsAny = false →
    ElementUpdate definition filter sub written items after →
    ElementUpdate definition filter sub written (.object element :: items) after

section ElementUpdate

variable {target : Target} {change : Change} {filter : Filter} {items changed : List Json}

/-- Writing or clearing a sub-attribute of an element changes nothing else of it. -/
theorem changeSub_spec {element : Object} (unambiguous : element.Unambiguous) (sub : Attribute)
    (change : Change) :
    ChangesOnly sub.name element (changeSub change sub element) ∧
      Object.attribute? (changeSub change sub element) sub.name = change.value? := by
  refine ⟨(changeSub_edits change sub element).changesOnly unambiguous, ?_⟩
  unfold changeSub
  cases change.value? with
  | some value => exact attribute?_setAttribute element sub.name value
  | none => exact attribute?_removeAttribute_self unambiguous rfl

theorem elementUpdate_replace {definition : Attribute} (value : Json) (items : List Json) :
    ElementUpdate definition filter none (some value) items
      (items.map fun item => if filter.matchesElement definition item then value else item) := by
  induction items with
  | nil => exact .nil
  | cons item rest ih =>
    rw [List.map_cons]
    cases selects : filter.matchesElement definition item with
    | true => exact .replaced selects rfl rfl ih
    | false => exact .kept selects (.inl rfl) ih

theorem elementUpdate_remove {definition : Attribute} (items : List Json) :
    ElementUpdate definition filter none none items
      (items.filter (!filter.matchesElement definition ·)) := by
  induction items with
  | nil => exact .nil
  | cons item rest ih =>
    rw [List.filter_cons]
    cases selects : filter.matchesElement definition item with
    | true => exact .dropped selects rfl rfl ih
    | false => exact .kept selects (.inl rfl) ih

theorem changeElement_of_not_selected {selects : Json → Bool} {sub : Attribute} {item : Json}
    (notSelected : selects item = false) : changeElement selects change sub item = item := by
  unfold changeElement
  split
  · rw [notSelected, if_neg Bool.false_ne_true]
  · rfl

theorem elementUpdate_sub {definition sub : Attribute} {name : String}
    (named : definition.sub? name = some sub) (change : Change) (items : List Json)
    (distinct : ∀ item ∈ items, item.isDistinct = true) :
    ElementUpdate definition filter (some name) change.value? items
      ((items.map (changeElement (filter.matchesElement definition) change sub)).filter
        Json.isPresent) := by
  induction items with
  | nil => exact .nil
  | cons item rest ih =>
    obtain ⟨distinctItem, distinctRest⟩ := List.forall_mem_cons.mp distinct
    have others := ih distinctRest
    rw [List.map_cons, List.filter_cons]
    cases selects : filter.matchesElement definition item with
    | true =>
      -- What is selected is an object, and is changed in the sub-attribute.
      obtain ⟨element, rfl⟩ := exists_object_of_matchesElement selects
      have changed : changeElement (filter.matchesElement definition) change sub (.object element) =
          .object (changeSub change sub element) := if_pos selects
      have spec := changeSub_spec (Json.unambiguous_of_isDistinct distinctItem) sub change
      have only : definition.ChangesSub name change.value? element (changeSub change sub element) :=
        ⟨sub, named, spec⟩
      rw [changed]
      split
      next present => exact .changed selects rfl only present others
      next absent => exact .emptied selects rfl only (Bool.eq_false_iff.mpr absent) others
    | false =>
      rw [changeElement_of_not_selected selects]
      split
      next present => exact .kept selects (.inr present) others
      next absent => exact .swept selects rfl (Bool.eq_false_iff.mpr absent) others

/-- **What a change makes of the elements** is told by the filter, the sub-attribute behind it, and
the value that is written. -/
theorem elementUpdate_of_changeSelected {sub : Option String} {resolved : Resolved} {path : String}
    (whole : resolved.sub = none)
    (inner : Target.resolveSub resolved sub path = .ok target.sub)
    (distinct : ∀ item ∈ items, item.isDistinct = true)
    (selected : changeSelected target (filter.matchesElement resolved.definition) change items =
      .ok changed) :
    ElementUpdate resolved.definition filter sub change.value? items changed := by
  rcases Target.resolveSub_eq_ok inner with ⟨rfl, ofReference⟩ | ⟨name, found, rfl, named, isSub⟩
  · have noSub := ofReference.trans whole
    cases written : change.value? with
    | some value =>
      rw [changeSelected_replace noSub written selected]
      exact elementUpdate_replace value items
    | none =>
      rw [changeSelected_remove noSub written selected]
      exact elementUpdate_remove items
  · rw [changeSelected_sub isSub selected]
    exact elementUpdate_sub named change items distinct

/-- Nothing is selected any more once the selected elements have been removed. -/
theorem ElementUpdate.not_matches {definition : Attribute}
    (update : ElementUpdate definition filter none none items changed) :
    changed.any (filter.matchesElement definition) = false := by
  induction update with
  | nil => rfl
  | kept selects _ _ ih => rw [List.any_cons, selects, ih, Bool.or_false]
  | swept _ _ _ _ ih | dropped _ _ _ _ ih | emptied _ _ _ _ _ ih => exact ih
  | replaced _ _ written => cases written
  | changed _ named => cases named

end ElementUpdate

/-! ### What a search finds -/

/-- A stored value that is an array, or nothing in the place of one. -/
inductive Json.IsCollection : Option Json → Prop
  | absent : IsCollection none
  | null : IsCollection (some .null)
  | array {items : List Json} : IsCollection (some (.array items))

section Search

variable {view : View} {reference : Reference} {resolved : Resolved} {filter : Filter}
  {object : Object}

theorem Filter.isMatch_valuePath (whole : resolved.sub = none)
    (bound : view.resolveAttribute? reference = some resolved)
    (collection : Json.IsCollection (resolved.value? object)) :
    (Filter.valuePath reference filter).isMatch view (.object object) =
      (resolved.definition.isComplex &&
        (storedElements (resolved.value? object)).any
          (filter.matchesElement resolved.definition)) := by
  simp only [isMatch, holds, bound, whole, Option.isSome_none, Bool.false_or]
  cases complex : resolved.definition.isComplex with
  | false => simp
  | true =>
    -- A term in brackets speaks of an element as a value filter does.
    cases stored : resolved.value? object with
    | none => rfl
    | some value =>
      rw [stored] at collection
      cases collection with
      | null => rfl
      | array => rfl

end Search

/-! ### Selecting in a resource -/

/-- What an operation on selected elements does to a resource: the elements of the attribute become
`changed`, the rest of the object that holds it stays, and this is what the resource holds. -/
structure Resolved.Selects (resolved : Resolved) (filter : Filter) (sub : Option String)
    (written : Option Json) (before after container left : Object) (items changed : List Json) :
    Prop where
  found : resolved.container? before = some container
  stored : container.attribute? resolved.definition.name = some (.array items)
  elements : ElementUpdate resolved.definition filter sub written items changed
  others : ChangesOnly resolved.definition.name container left
  /-- An attribute does not stay behind without elements. -/
  value : left.attribute? resolved.definition.name =
    if changed.isEmpty then none else some (.array changed)
  leaves : resolved.Leaves before left after

section Selecting

variable {view : View} {target : Target} {change : Change} {resolved : Resolved} {filter : Filter}
  {sub : Option String} {path : String} {before after : Object}

theorem applyTarget_selects (distinct : Json.isDistinct (.object before) = true)
    (place : target.container = resolved.member.key?) (same : target.definition = resolved.definition)
    (filtered : target.filter = some filter) (whole : resolved.sub = none)
    (inner : Target.resolveSub resolved sub path = .ok target.sub)
    (applied : applyTarget target change before = .ok () after) :
    (storedElements (resolved.value? before)).any (filter.matchesElement resolved.definition) = true ∧
      ∃ container left items changed,
        changeSelected target (filter.matchesElement resolved.definition) change items = .ok changed ∧
          resolved.Selects filter sub change.value? before after container left items changed := by
  have inside := Json.unambiguous_container distinct resolved
  obtain ⟨_, _, ⟨unfiltered, _⟩ | ⟨left, stepped, leaves⟩⟩ :=
    applyTarget_eq_ok place (Json.unambiguous_of_isDistinct distinct) applied
  · rw [filtered] at unfiltered
    cases unfiltered
  obtain ⟨_, rewrites⟩ := applyInContainer_eq_ok stepped
  obtain ⟨matching, changed, selected, rfl⟩ := rewrites.of_filter filtered
  rw [slot?_eq_attribute? inside, same] at matching selected
  rw [same] at leaves
  refine ⟨resolved.value?_eq before ▸ matching, ?_⟩
  -- Where something is selected, there are an object and an array in it.
  obtain ⟨item, member, _⟩ := List.any_eq_true.mp matching
  have stored := eq_array_of_storedElements (List.ne_nil_of_mem member)
  cases found : resolved.container? before with
  | none =>
    rw [found] at member
    cases member
  | some container =>
    rw [found, Option.getD_some] at inside stored leaves selected
    have distinctValue := Json.isDistinct_of_attribute? (Json.isDistinct_of_container? distinct found) stored
    have distinctItems := Json.isDistinct_array_iff.mp distinctValue
    exact ⟨container, _, _, changed, selected, found, stored,
      elementUpdate_of_changeSelected whole inner distinctItems selected,
      (storeItems_edits _ changed container).changesOnly inside,
      attribute?_storeItems inside stored changed, leaves⟩

/-- Once the selected elements have been removed, a search finds none of them. -/
theorem Resolved.Selects.isMatch_eq_false {reference : Reference} {container left : Object}
    {items changed : List Json} (bound : view.resolveAttribute? reference = some resolved)
    (whole : resolved.sub = none)
    (selects : resolved.Selects filter none none before after container left items changed) :
    (Filter.valuePath reference filter).isMatch view (.object after) = false := by
  have none := selects.elements.not_matches
  -- What is read afterwards is the rest of the elements, or nothing.
  have read : resolved.value? after = .none ∨ resolved.value? after = some (.array changed) := by
    rcases selects.leaves.value?_cases with kept | gone
    · rw [kept, selects.value]
      split
      · exact .inl rfl
      · exact .inr rfl
    · exact .inl gone
  rcases read with nothing | rest
  · have collection : Json.IsCollection (resolved.value? after) := nothing ▸ .absent
    rw [Filter.isMatch_valuePath whole bound collection, nothing]
    exact Bool.and_false _
  · have collection : Json.IsCollection (resolved.value? after) := rest ▸ .array
    rw [Filter.isMatch_valuePath whole bound collection, rest]
    simp only [storedElements, none, Bool.and_false]

section Operation

variable {limits : Limits} {operation : PatchOperation} {reference : Reference} {resource : Json}

/-- What an operation that succeeds has been applied to. -/
theorem exists_target_of_patch (isPath : operation.path = some { reference, filter := some filter, sub })
    (bound : view.resolveAttribute? reference = some resolved)
    (done : (patch limits view [operation] resource).error = none) :
    ∃ before after target change, resource = .object before ∧
      (patch limits view [operation] resource).resource = .object after ∧
      target.container = resolved.member.key? ∧ target.definition = resolved.definition ∧
      target.filter = some filter ∧ resolved.definition.isComplex = true ∧
      (∃ path, Target.resolveSub resolved sub path = .ok target.sub) ∧
      change.value? = operation.written? ∧ applyTarget target change before = .ok () after := by
  obtain ⟨before, after, rfl, applied, left⟩ := patch_singleton_eq_ok done
  have attributewise : PatchPath.wholeExtension? { reference, filter := some filter, sub } view = none :=
    PatchPath.wholeExtension?_of_filter rfl
  obtain ⟨target, change, boundTarget, made, applied⟩ :=
    PatchOperation.apply_eq_ok isPath attributewise applied
  obtain ⟨found, inner, boundFound, foundSub, applicable, rfl⟩ := Target.resolve_eq_ok boundTarget
  obtain rfl : resolved = found := Option.some.inj (bound.symm.trans boundFound)
  exact ⟨before, after, _, change, rfl, left, rfl, rfl, rfl, (applicable rfl).2, ⟨_, foundSub⟩,
    Change.value?_of_ofOperation made, applied⟩

/-- What an operation that succeeds has selected, and what it has made of it. -/
theorem selects_of_patch (distinct : resource.isDistinct = true)
    (isPath : operation.path = some { reference, filter := some filter, sub })
    (whole : resolved.sub = none) (bound : view.resolveAttribute? reference = some resolved)
    (done : (patch limits view [operation] resource).error = none) :
    resolved.definition.isComplex = true ∧
      ∃ before after container left items changed, resource = .object before ∧
        (patch limits view [operation] resource).resource = .object after ∧
        (storedElements (resolved.value? before)).any
          (filter.matchesElement resolved.definition) = true ∧
        resolved.Selects filter sub operation.written? before after container left items changed := by
  obtain ⟨before, after, target, change, rfl, left, place, same, filtered, complex, ⟨_, inner⟩, written,
    applied⟩ := exists_target_of_patch isPath bound done
  obtain ⟨matching, container, rest, items, changed, _, selects⟩ :=
    applyTarget_selects distinct place same filtered whole inner applied
  rw [written] at selects
  exact ⟨complex, before, after, container, rest, items, changed, rfl, left, matching, selects⟩

/-- Where a search finds something, an operation does not fail for want of a target. -/
theorem patch_ne_noTarget {before : Object} (distinct : Json.isDistinct (.object before) = true)
    (isPath : operation.path = some { reference, filter := some filter, sub })
    (bound : view.resolveAttribute? reference = some resolved)
    (matching : (storedElements (resolved.value? before)).any
      (filter.matchesElement resolved.definition) = true) (path : String) :
    (patch limits view [operation] (.object before)).error ≠ some (.noTarget path) := by
  intro failed
  have attributewise : PatchPath.wholeExtension? { reference, filter := some filter, sub } view = none :=
    PatchPath.wholeExtension?_of_filter rfl
  rcases patch_singleton_eq_error failed with tooMany | ⟨final, failed⟩
  · cases tooMany
  rcases PatchOperation.apply_eq_error isPath attributewise failed with
    ⟨_, otherKind⟩ | ⟨_, otherKind⟩ | ⟨target, change, boundTarget, failed⟩
  · cases otherKind
  · cases otherKind
  · obtain ⟨found, inner, boundFound, _, _, rfl⟩ := Target.resolve_eq_ok boundTarget
    obtain rfl : resolved = found := Option.some.inj (bound.symm.trans boundFound)
    have nothing := applyTarget_eq_noTarget rfl (Json.unambiguous_of_isDistinct distinct)
      (Json.unambiguous_container distinct resolved) rfl rfl failed
    rw [matching] at nothing
    cases nothing

end Operation

/-- **A value filter in a path selects what the filter selects in a search.** For an operation on
`A[f]` or `A[f].s`, where the attribute `A` holds an array or nothing:

- It does not succeed on a resource that `A[f]` does not match, and on one that it matches it does not
  fail for want of a target.
- If it succeeds, the elements that satisfy `f` have been dropped, replaced, or changed in `s` only
  and dropped if nothing is left of them; all others that hold anything are kept, in their order. The
  attribute is dropped with its last element, and the object of an extension with the last value in
  it.
- If the elements have been removed, `A[f]` does not match any more. -/
theorem patch_selects (limits : Limits) (view : View) (operation : PatchOperation)
    (reference : Reference) (filter : Filter) (sub : Option String) (resource : Json)
    (resolved : Resolved) (distinct : resource.isDistinct = true)
    (isPath : operation.path = some { reference, filter := some filter, sub })
    (plain : reference.sub = none) (bound : view.resolveAttribute? reference = some resolved)
    (collection : Json.IsCollection (resource.object?.bind resolved.value?)) :
    let outcome := patch limits view [operation] resource
    let selected := Filter.valuePath reference filter
    (outcome.error = none → selected.isMatch view resource = true) ∧
      (selected.isMatch view resource = true → ∀ path, outcome.error ≠ some (.noTarget path)) ∧
      (outcome.error = none → ∃ before after container left items changed,
        resource = .object before ∧ outcome.resource = .object after ∧
          resolved.Selects filter sub operation.written? before after container left items changed) ∧
      (outcome.error = none → sub = none → operation.written? = none →
        selected.isMatch view outcome.resource = false) := by
  intro outcome selected
  have whole : resolved.sub = none := by
    rw [View.resolveAttribute?_sub bound, plain]
    rfl
  refine ⟨fun done => ?_, fun matching path => ?_, fun done => ?_, fun done noSub nothing => ?_⟩
  · obtain ⟨complex, before, _, _, _, _, _, rfl, _, matching, _⟩ :=
      selects_of_patch distinct isPath whole bound done
    rw [Filter.isMatch_valuePath whole bound collection, complex, matching]
    rfl
  · cases resource with
    | object before =>
      rw [Filter.isMatch_valuePath whole bound collection] at matching
      have someSelected := (Bool.and_eq_true_iff.mp matching).2
      exact patch_ne_noTarget distinct isPath bound someSelected path
    | _ => cases matching
  · obtain ⟨_, before, after, container, left, items, changed, same, reached, _, selects⟩ :=
      selects_of_patch distinct isPath whole bound done
    exact ⟨before, after, container, left, items, changed, same, reached, selects⟩
  · obtain ⟨_, _, _, _, _, _, _, _, reached, _, selects⟩ :=
      selects_of_patch distinct isPath whole bound done
    rw [noSub, nothing] at selects
    rw [reached]
    exact selects.isMatch_eq_false bound whole

/-- The red card is taken away, and the other one stays. -/
theorem patch_selects_red :
    let cards : Attribute :=
      { name := "cards", type := .complex, multiValued := true,
        subAttributes := [.simple "colour" .string, .simple "number" .integer] }
    let extension : Schema := { id := "urn:b", attributes := [cards] }
    let view := View.ofSchemas { id := "urn:a" } [extension]
    let blue : Json := .object [("colour", .string "blue")]
    let resource : Json := .object [("urn:b", .object [("cards", .array
      [.object [("colour", .string "red"), ("number", .number (.integer 7))], blue])])]
    let reference : Reference := ⟨some "urn:b", "cards", none⟩
    let filter : Filter := .compare ⟨none, "colour", none⟩ .eq (.string "red")
    let operation : PatchOperation :=
      { verb := .remove, path := some { reference, filter := some filter } }
    let outcome := patch {} view [operation] resource
    (outcome.error = none ∧ outcome.resource.object?.bind (Object.attribute? · "urn:b") =
        some (.object [("cards", .array [blue])])) ∧
      (Filter.valuePath reference filter).isMatch view resource = true ∧
        (Filter.valuePath reference filter).isMatch view outcome.resource = false := by
  refine ⟨⟨rfl, rfl⟩, rfl, (patch_selects {} _ _ _ _ none _ ⟨⟨.extension 0, _⟩, _, none⟩ rfl rfl rfl rfl
    ?collection).2.2.2 rfl rfl rfl⟩
  exact .array

end Selecting

end Scim
