import Scim.Proofs.Patch.Searchable
import Scim.Proofs.Patch.Typing
import Scim.Proofs.Resource.Keyed

/-!
# One key for each name

Attributes are read and written by names whose case does not matter, which takes one key for each name
in every object. Whatever is written under a name of its definition keeps to this: attributes, the
objects of extensions, and the entries that are merged into a complex value. The elements of a
collection are the exception. They are stored as they are given, so that an element in which a
sub-attribute stands under two spellings brings both of them into the resource.
-/

namespace Scim

open Object

/-! ### Elements that are stored as they are given -/

/-- The elements of a collection of complex values that a value holds, if it is written to the
collection or to some of its elements as a whole. -/
def Target.elements (target : Target) (value : Json) : List Json :=
  if target.sub.isNone && target.definition.multiValued && target.definition.isComplex then
    addedItems value
  else []

theorem Target.mem_elements_iff {target : Target} {value element : Json} :
    element ∈ target.elements value ↔
    (target.sub = none ∧ target.definition.multiValued = true ∧
      target.definition.isComplex = true) ∧ element ∈ addedItems value := by
  have isCollection : (target.sub.isNone && target.definition.multiValued &&
      target.definition.isComplex) = true ↔ target.sub = none ∧ target.definition.multiValued = true ∧
        target.definition.isComplex = true := by
    simp [and_assoc]
  rw [← isCollection]
  unfold elements
  split
  next is => simp [is]
  next isNot => simp [isNot]

/-- An operation stores an element as it is given. -/
def PatchOperation.Stores (view : View) (operation : PatchOperation) (element : Json) : Prop :=
  ∃ target value, operation.Writes view target value ∧ element ∈ target.elements value

/-! ### Accepted values -/

section Accepted

variable {definition : Attribute} {value : Json}

/-- A single value of a simple attribute has no parts. -/
theorem Attribute.isScalar_of_isValue (simple : definition.isComplex = false)
    (accepted : definition.IsValue value) : value.isScalar = true := by
  cases value with
  | array items => cases (check_array_eq_ok_iff.mp accepted).1
  | object entries =>
    rw [(check_object_eq_ok_iff.mp accepted).1] at simple
    cases simple
  | _ => rfl

/-- What a simple attribute accepts holds no object. -/
theorem Attribute.isKeyed_of_accepts {asMany : Bool} (simple : definition.isComplex = false)
    (accepted : definition.Accepts asMany value) : value.IsKeyed := by
  cases value with
  | array items =>
    have each := checkItems_eq_ok_iff.mp (check_array_eq_ok_iff.mp accepted).2.2
    refine Json.isKeyed_array_iff.mpr fun item member => ?_
    exact Json.isKeyed_of_isScalar (isScalar_of_isValue simple (each item member))
  | object entries =>
    rw [(check_object_eq_ok_iff.mp accepted).1] at simple
    cases simple
  | _ => exact Json.isKeyed_of_isScalar rfl

theorem addedItems_of_isValue (accepted : definition.IsValue value) : addedItems value = [value] := by
  cases value with
  | array items => cases (Attribute.check_array_eq_ok_iff.mp accepted).1
  | _ => rfl

variable {target : Target} {change : Change}

/-- What is written to a collection has one key for each name if the elements have. -/
theorem Target.isKeyed_of_mem_addedItems (whole : target.sub = none)
    (many : target.definition.multiValued = true)
    (accepted : ∀ item ∈ addedItems value, target.definition.IsValue item)
    (keyed : ∀ element ∈ target.elements value, element.IsKeyed) :
    ∀ item ∈ addedItems value, item.IsKeyed := by
  intro item member
  cases complex : target.definition.isComplex with
  | true => exact keyed item (mem_elements_iff.mpr ⟨⟨whole, many, complex⟩, member⟩)
  | false =>
    have scalar := Attribute.isScalar_of_isValue complex (accepted item member)
    exact Json.isKeyed_of_isScalar scalar

end Accepted

/-! ### Ways of writing -/

section Writing

variable {definition sub : Attribute} {change : Change} {container : Object} {name : String}
  {value : Json} {items : List Json}

open Json

theorem isKeyed_of_mem_storedItems (keyed : IsKeyed (.object container)) {item : Json}
    (member : item ∈ storedItems (container.slot? name)) : item.IsKeyed := by
  cases stored : container.slot? name with
  | none =>
    rw [stored] at member
    cases member
  | some value =>
    rw [stored] at member
    have keyedValue := keyed.of_slot? stored
    cases value with
    | array items => exact isKeyed_array_iff.mp keyedValue item member
    | null => cases member
    | _ => exact List.mem_singleton.mp member ▸ keyedValue

theorem isKeyed_of_mem_storedElements (keyed : IsKeyed (.object container)) {item : Json}
    (member : item ∈ storedElements (container.slot? name)) : item.IsKeyed :=
  isKeyed_of_mem_storedItems keyed (mem_storedItems_of_mem_storedElements member)

theorem isKeyed_addToCollection (keyed : IsKeyed (.object container))
    (each : ∀ item ∈ addedItems value, item.IsKeyed) :
    IsKeyed (.object (addToCollection name value container)) := by
  simp only [addToCollection]
  split
  · exact keyed.removeAttribute name
  · refine (keyed.removeAttribute name).setAttribute name (isKeyed_array_iff.mpr fun item member => ?_)
    rcases mem_addItems member with old | new
    · exact isKeyed_of_mem_storedItems keyed old
    · exact each item new

theorem isKeyed_replaceCollection (keyed : IsKeyed (.object container)) (keyedValue : value.IsKeyed) :
    IsKeyed (.object (replaceCollection name value container)) := by
  unfold replaceCollection
  split
  · exact keyed.setAttribute name keyedValue
  · exact keyed.removeAttribute name

/-- Merging writes under the names of the sub-attributes, whatever the spelling of the entries. -/
theorem isKeyed_mergeEntries {current entries : Object} (keyed : IsKeyed (.object current))
    (each : ∀ entry ∈ entries, entry.2.isNull = false → entry.2.IsKeyed) :
    IsKeyed (.object (mergeEntries definition current entries)) := by
  induction entries generalizing current with
  | nil => exact keyed
  | cons entry rest ih =>
    obtain ⟨head, tail⟩ := List.forall_mem_cons.mp each
    refine ih ?_ tail
    split
    · exact keyed.removeAttribute _
    next notNull => exact keyed.setAttribute _ (head (Bool.eq_false_iff.mpr notNull))

theorem isKeyed_mergeInto {entries : Object} (keyed : IsKeyed (.object container))
    (each : ∀ entry ∈ entries, entry.2.isNull = false → entry.2.IsKeyed) :
    IsKeyed (.object (mergeInto definition entries container)) := by
  -- The entries are merged into the object that is there, or into an empty one.
  have current : IsKeyed (.object (((container.slot? definition.name).bind object?).getD [])) := by
    cases stored : container.slot? definition.name with
    | none => exact isKeyed_empty
    | some value =>
      cases value with
      | object fields => exact keyed.of_slot? stored
      | _ => exact isKeyed_empty
  have merged : IsKeyed (.object (mergeEntries definition _ entries)) :=
    isKeyed_mergeEntries current each
  simp only [mergeInto]
  split
  · exact (keyed.removeAttribute _).setAttribute _ merged
  · exact keyed.removeAttribute _

theorem isKeyed_storeItems (keyed : IsKeyed (.object container)) (each : ∀ item ∈ items, item.IsKeyed) :
    IsKeyed (.object (storeItems name items container)) := by
  unfold storeItems
  split
  · exact keyed.removeAttribute name
  · exact keyed.replaceSlot name (isKeyed_array_iff.mpr each)

theorem isKeyed_changeSub {element : Object} (keyed : IsKeyed (.object element))
    (written : ∀ value, change.value? = some value → value.IsKeyed) :
    IsKeyed (.object (changeSub change sub element)) := by
  unfold changeSub
  split
  next value isValue => exact keyed.setAttribute _ (written value isValue)
  · exact keyed.removeAttribute _

theorem isKeyed_ensureObject (keyed : IsKeyed (.object container)) :
    IsKeyed (.object (ensureObject name container)) := by
  unfold ensureObject
  split
  · exact keyed
  · exact keyed.setAttribute name isKeyed_empty

theorem isKeyed_changeSubOfValue (keyed : IsKeyed (.object container))
    (written : ∀ value, change.value? = some value → value.IsKeyed) :
    IsKeyed (.object (changeSubOfValue name sub change container)) := by
  unfold changeSubOfValue
  split
  next value isValue =>
    have ensured : IsKeyed (.object (ensureObject name container)) := isKeyed_ensureObject keyed
    simp only [setSub]
    split
    next parent stored =>
      have parentKeyed : IsKeyed (.object parent) := ensured.of_slot? stored
      exact ensured.replaceSlot name (parentKeyed.setAttribute _ (written value isValue))
    · exact ensured
  · unfold clearSub
    split
    next parent stored =>
      have parentKeyed : IsKeyed (.object parent) := keyed.of_slot? stored
      simp only []
      split
      · exact keyed.replaceSlot name (parentKeyed.removeAttribute _)
      · exact keyed.removeAttribute name
    · exact keyed

end Writing

/-! ### Changes -/

section Changes

variable {view : View} {schema : Schema} {member : Member} {target : Target} {change : Change}
  {before after : Object}

open Json

/-- **Whatever the way of writing, every name keeps its one key**, if the elements that are stored as
they are given have one key for each name. -/
theorem Target.Rewrites.isKeyed (rewrites : target.Rewrites change before after)
    (valid : schema.validate = .ok ()) (declared : target.definition ∈ schema.attributes)
    (subDeclared : ∀ sub, target.sub = some sub → sub ∈ target.definition.subAttributes)
    (applicable : target.filter.isSome = true → target.definition.multiValued = true)
    (checked : target.checkValue change = .ok ()) (keyed : IsKeyed (.object before))
    (elements : ∀ value, change.value? = some value →
      ∀ element ∈ target.elements value, element.IsKeyed) : IsKeyed (.object after) := by
  -- The value of a sub-attribute holds no object.
  have writtenSub (sub : Attribute) (inner : target.sub = some sub) (value : Json)
      (written : change.value? = some value) : value.IsKeyed := by
    have simple := Schema.sub_isComplex valid declared (subDeclared sub inner)
    exact Attribute.isKeyed_of_accepts simple (accepts_of_checkValue_sub inner checked value written)
  cases rewrites with
  | removed => exact keyed.removeAttribute _
  | @added value whole inner many added =>
    have accepted := (isValue_of_checkValue_many inner whole many checked).1 value added
    have written : change.value? = some value := by rw [added]; rfl
    exact isKeyed_addToCollection keyed
      (isKeyed_of_mem_addedItems inner many accepted (elements value written))
  | @replaced value whole inner many replaced =>
    have holds := (isValue_of_checkValue_many inner whole many checked).2 value replaced
    have written : change.value? = some value := by rw [replaced]; rfl
    refine isKeyed_replaceCollection keyed ?_
    -- Only an array passes the check, and its items are the elements.
    cases holds with
    | null => exact isKeyed_of_isScalar rfl
    | single single =>
      rw [many] at single
      cases single
    | @many items _ accepted =>
      have each : ∀ item ∈ addedItems (.array items), item.IsKeyed :=
        isKeyed_of_mem_addedItems inner many accepted (elements _ written)
      exact isKeyed_array_iff.mpr each
  | merged whole inner single _ written =>
    have accepted := isValue_of_checkValue_single inner whole single checked _ written
    -- What an entry gives to a sub-attribute holds no object, as complex attributes are not nested.
    refine isKeyed_mergeInto keyed fun entry inEntries notNull => ?_
    obtain ⟨sub, found, accepts⟩ := (Attribute.isValue_object_iff.mp accepted).2 entry inEntries
    have simple := Schema.sub_isComplex valid declared (Attribute.find?_eq_some found).1
    exact Attribute.isKeyed_of_accepts simple (accepts notNull)
  | overwritten whole inner single simple written =>
    have accepted := isValue_of_checkValue_single inner whole single checked _ written
    exact keyed.setAttribute _ (Attribute.isKeyed_of_accepts simple accepted)
  | untouched => exact keyed
  | @subOfItems sub _ _ inner _ _ _ rewritten =>
    have each := forall_mem_changeSubOfAll rewritten
      (fun item stored => isKeyed_of_mem_storedElements keyed stored)
      fun _ element => isKeyed_changeSub element (writtenSub sub inner)
    exact isKeyed_storeItems keyed fun item kept => each item (List.mem_filter.mp kept).1
  | @subOfValue sub _ inner => exact isKeyed_changeSubOfValue keyed (writtenSub sub inner)
  | selected filtered _ selected =>
    refine isKeyed_storeItems keyed (forall_mem_changeSelected ?_ ?_ ?_ selected)
    · exact fun item stored => isKeyed_of_mem_storedElements keyed stored
    · -- A value that replaces whole elements is stored as it is given.
      intro inner value written
      have accepted := isValue_of_checkValue_filter inner filtered checked value written
      have one := addedItems_of_isValue accepted
      refine isKeyed_of_mem_addedItems inner (applicable (filtered ▸ rfl)) ?_ (elements value written)
        value ?_
      · rw [one]
        exact List.forall_mem_singleton.mpr accepted
      · rw [one]
        exact List.mem_singleton_self value
    · exact fun sub inner _ element => isKeyed_changeSub element (writtenSub sub inner)

theorem isKeyed_changeSchemas {change : List Json → List Json} (keyed : IsKeyed (.object before))
    (each : ∀ urns : List Json, (∀ urn ∈ urns, urn.IsKeyed) → ∀ urn ∈ change urns, urn.IsKeyed) :
    IsKeyed (.object (changeSchemas before change)) := by
  unfold changeSchemas
  split
  next urns listed =>
    have stored := isKeyed_array_iff.mp (keyed.of_slot? listed)
    exact keyed.replaceSlot _ (isKeyed_array_iff.mpr (each urns stored))
  · exact keyed

theorem isKeyed_createExtension (urn : String) (keyed : IsKeyed (.object before)) :
    IsKeyed (.object (createExtension urn before)) := by
  refine isKeyed_changeSchemas (keyed.setAttribute urn isKeyed_empty) fun urns each => ?_
  split
  · exact each
  · intro listed member
    rcases List.mem_append.mp member with old | new
    · exact each listed old
    · exact List.mem_singleton.mp new ▸ isKeyed_of_isScalar rfl

/-- The resource in which a step in an extension is taken. -/
theorem isKeyed_enterExtension {urn : String} {ready : Object} (keyed : IsKeyed (.object before))
    (isReady : (if (before.attribute? urn).all Json.isNull then createExtension urn before
      else before) = ready) : IsKeyed (.object ready) := by
  split at isReady
  · exact isReady ▸ isKeyed_createExtension urn keyed
  · exact isReady ▸ keyed

/-- Dropping an extension and its entry in the list. -/
theorem isKeyed_dropExtension (urn : String) (keyed : IsKeyed (.object before)) :
    IsKeyed (.object (unregisterExtension (before.removeAttribute urn) urn)) :=
  isKeyed_changeSchemas (keyed.removeAttribute urn) fun _ each listed member =>
    each listed (List.mem_filter.mp member).1

theorem isKeyed_tidyExtension (urn : String) (keyed : IsKeyed (.object before)) :
    IsKeyed (.object (tidyExtension before urn)) := by
  unfold tidyExtension
  split
  · split
    · exact keyed
    · exact isKeyed_dropExtension urn keyed
  · exact keyed

theorem applyTarget_isKeyed (valid : ∀ member ∈ view.members, member.schema.validate = .ok ())
    (declared : target.IsDeclared view member)
    (elements : ∀ value, change.value? = some value →
      ∀ element ∈ target.elements value, element.IsKeyed)
    (applied : applyTarget target change before = .ok () after) (keyed : IsKeyed (.object before)) :
    IsKeyed (.object after) := by
  obtain ⟨_, checked, applies⟩ := applyTarget_applies applied
  -- What the change does to the object that holds the attribute.
  have inside {container changed : Object} (keyed : IsKeyed (.object container))
      (stepped : applyInContainer target change container = .ok () changed) :
      IsKeyed (.object changed) :=
    (applyInContainer_eq_ok stepped).2.isKeyed (valid member declared.member_mem) declared.definition
      declared.sub (fun filtered => (declared.filter filtered).1) checked keyed elements
  cases applies with
  | atTop _ applied => exact inside keyed applied
  | skipped => exact keyed
  | @inside urn _ _ _ _ isReady _ stored stepped =>
    have entered := isKeyed_enterExtension keyed isReady
    have left := inside (entered.of_slot? stored) stepped
    exact isKeyed_tidyExtension urn (entered.replaceSlot urn left)

theorem removeExtension_isKeyed {extension : Schema}
    (done : removeExtension extension before = .ok () after) (keyed : IsKeyed (.object before)) :
    IsKeyed (.object after) := by
  simp only [removeExtension, step_bind_eq_ok_iff, step_get_eq_ok_iff, step_check_eq_ok_iff,
    step_modify_eq_ok_iff] at done
  obtain ⟨_, _, ⟨rfl, rfl⟩, _, _, ⟨_, rfl⟩, removed⟩ := done
  split at removed
  · exact removed ▸ isKeyed_dropExtension _ keyed
  · exact removed ▸ keyed

/-- Every step keeps one key for each name, if the elements that it stores have one. -/
theorem isKeptWhere_isKeyed (valid : ∀ member ∈ view.members, member.schema.validate = .ok ()) :
    view.IsKeptWhere (fun target value => ∀ element ∈ target.elements value, element.IsKeyed)
      fun before after => IsKeyed (.object before) → IsKeyed (.object after) where
  refl _ := id
  trans first second keyed := second (first keyed)
  change declared elements _ _ applied keyed :=
    applyTarget_isKeyed valid declared elements applied keyed
  removal _ _ _ done keyed := removeExtension_isKeyed done keyed

end Changes

/-! ### What is found of a stored element -/

section Stored

variable {target : Target} {change : Change} {before after : Object} {value element : Json}

/-- **An element that an operation stores stands in the collection afterwards**, unless an equal one did
so before. -/
theorem Target.Rewrites.exists_same_element (rewrites : target.Rewrites change before after)
    (unambiguous : before.Unambiguous) (checked : target.checkValue change = .ok ())
    (written : change.value? = some value) (stored : element ∈ target.elements value)
    (present : element.isPresent = true) :
    ∃ items, after.attribute? target.definition.name = some (.array items) ∧
      ∃ item ∈ items, item.same element = true := by
  obtain ⟨⟨whole, many, _⟩, inValue⟩ := mem_elements_iff.mp stored
  cases rewrites with
  | removed _ _ removed =>
    rw [removed] at written
    cases written
  | added _ _ _ added =>
    rw [added] at written
    cases written
    obtain ⟨item, there, same⟩ :=
      exists_same_mem_addItems (storedItems (before.slot? target.definition.name)) inValue
    refine ⟨_, ?_, item, there, same⟩
    simp only [addToCollection, List.isEmpty_eq_false_iff.mpr (List.ne_nil_of_mem there),
      Bool.false_eq_true, if_false, attribute?_setAttribute]
  | replaced filtered _ _ replaced =>
    have holds := (isValue_of_checkValue_many whole filtered many checked).2 _ replaced
    rw [replaced] at written
    cases written
    cases holds with
    | null =>
      rw [List.mem_singleton.mp inValue] at present
      cases present
    | single single =>
      rw [many] at single
      cases single
    | @many items =>
      have someItems : (Json.array items).isPresent = true :=
        Json.isPresent_array_iff.mpr ⟨element, inValue, present⟩
      refine ⟨items, ?_, element, inValue, Json.same_refl element⟩
      rw [replaceCollection, if_pos someItems, attribute?_setAttribute]
  | merged _ _ single | overwritten _ _ single =>
    rw [many] at single
    cases single
  | untouched _ inner | subOfItems _ inner | subOfValue _ inner =>
    rw [whole] at inner
    cases inner
  | @selected filter changed filtered matching selected =>
    -- The value is one element, and takes the place of those that are selected.
    have accepted := isValue_of_checkValue_filter whole filtered checked value written
    rw [addedItems_of_isValue accepted] at inValue
    obtain rfl := List.mem_singleton.mp inValue
    obtain ⟨old, inItems, selects⟩ := List.any_eq_true.mp matching
    have there := (slot?_eq_attribute? unambiguous).symm.trans
      (eq_array_of_storedElements (List.ne_nil_of_mem inItems))
    have placed : element ∈ changed := by
      rw [changeSelected_replace whole written selected]
      exact List.mem_map.mpr ⟨old, inItems, if_pos selects⟩
    refine ⟨_, ?_, element, placed, Json.same_refl element⟩
    rw [attribute?_storeItems unambiguous there,
      List.isEmpty_eq_false_iff.mpr (List.ne_nil_of_mem placed), if_neg Bool.false_ne_true]

end Stored

/-! ### Patches -/

section Patches

variable {limits : Limits} {view : View} {operation : PatchOperation} {target : Target}
  {resource value element : Json}

open Json

theorem PatchOperation.value_of_written? (written : operation.written? = some value) :
    operation.value = some value :=
  (Option.filter_eq_some_iff.mp (Option.ite_none_left_eq_some.mp written).2).1

/-- What is written is the value of the operation, or an entry of it. -/
theorem PatchOperation.Writes.ordered (writes : operation.Writes view target value)
    (ordered : ∀ value, operation.value = some value → value.Ordered) : value.Ordered := by
  have ofEntry {entries : Object} {key : String} {value : Json} (ordered : Ordered (.object entries))
      (member : (key, value) ∈ entries) : value.Ordered :=
    (ordered_object_iff.mp ordered).2 (key, value) member
  cases writes with
  | atPath _ _ _ written => exact ordered value (value_of_written? written)
  | inExtension _ _ written member => exact ofEntry (ordered _ (value_of_written? written)) member
  | entry _ isValue member => exact ofEntry (ordered _ isValue) member
  | extensionEntry _ isValue member _ _ memberInside =>
    exact ofEntry (ofEntry (ordered _ isValue) member) memberInside

theorem Target.ordered_of_mem_elements (ordered : value.Ordered)
    (member : element ∈ target.elements value) : element.Ordered := by
  have inValue := (mem_elements_iff.mp member).2
  cases value with
  | array items => exact ordered_array_iff.mp ordered element inValue
  | _ => exact List.mem_singleton.mp inValue ▸ ordered

theorem isKeyed_patch {operations : List PatchOperation}
    (valid : ∀ member ∈ view.members, member.schema.validate = .ok ()) (keyed : resource.IsKeyed)
    (ordered : ∀ operation ∈ operations, ∀ value, operation.value = some value → value.Ordered)
    (distinct : ∀ operation ∈ operations, ∀ element, operation.Stores view element →
      element.isDistinct = true) :
    (patch limits view operations resource).resource.IsKeyed := by
  cases resource with
  | object object =>
    have stored (operation) (member : operation ∈ operations) (target) (value)
        (writes : operation.Writes view target value) :
        ∀ element ∈ target.elements value, element.IsKeyed := by
      intro element inValue
      have orderedValue := writes.ordered (ordered operation member)
      exact ⟨Target.ordered_of_mem_elements orderedValue inValue,
        distinct operation member element ⟨target, value, writes, inValue⟩⟩
    obtain ⟨final, reached, kept⟩ := (isKeptWhere_isKeyed valid).patch limits object operations stored
    exact reached ▸ kept keyed
  | _ =>
    -- What is no object is never changed.
    rw [resource_patch_of_not_object rfl]
    exact keyed

/-- What a path has brought into a resource shows in the resource. -/
theorem isDistinct_patch_eq_false {path : PatchPath} (distinct : resource.isDistinct = true)
    (isPath : operation.path = some path) (attributewise : path.wholeExtension? view = none)
    (stores : operation.Stores view element) (present : element.isPresent = true)
    (ambiguous : element.isDistinct = false)
    (done : (patch limits view [operation] resource).error = none) :
    (patch limits view [operation] resource).resource.isDistinct = false := by
  obtain ⟨before, after, rfl, applied, left⟩ := patch_singleton_eq_ok done
  obtain ⟨target, change, bound, made, applied⟩ :=
    PatchOperation.apply_eq_ok isPath attributewise applied
  -- What the operation writes is its value, and to what its path is bound to.
  obtain ⟨value, written, inValue⟩ : ∃ value, operation.written? = some value ∧
      element ∈ target.elements value := by
    obtain ⟨other, value, writes, inValue⟩ := stores
    cases writes with
    | atPath samePath _ boundOther written =>
      obtain rfl := Option.some.inj (isPath.symm.trans samePath)
      obtain rfl := Except.ok.inj (bound.symm.trans boundOther)
      exact ⟨value, written, inValue⟩
    | inExtension samePath whole =>
      obtain rfl := Option.some.inj (isPath.symm.trans samePath)
      rw [attributewise] at whole
      cases whole
    | entry noPath | extensionEntry noPath =>
      rw [isPath] at noPath
      cases noPath
  obtain ⟨resolved, inner, _, _, _, isTarget⟩ := Target.resolve_eq_ok bound
  have place : target.container = resolved.member.key? := by rw [isTarget]
  have sameDefinition : target.definition = resolved.definition := by rw [isTarget]
  have writes := (Change.value?_of_ofOperation made).trans written
  obtain ⟨_, checked, ⟨_, nothing, _⟩ | ⟨changed, stepped, leaves⟩⟩ :=
    applyTarget_eq_ok place (unambiguous_of_isDistinct distinct) applied
  · rw [writes] at nothing
    cases nothing
  · obtain ⟨_, rewrites⟩ := applyInContainer_eq_ok stepped
    obtain ⟨items, read, item, member, same⟩ := rewrites.exists_same_element
      (unambiguous_container distinct resolved) checked writes inValue present
    rw [sameDefinition] at read
    -- The collection holds something, which is why the object that it stands in is not dropped.
    have holds : isPresent (.array items) = true :=
      isPresent_array_iff.mpr ⟨item, member, (isPresent_eq_of_same item element same).trans present⟩
    have has : changed.has resolved.definition.name = true := by
      rw [Object.has, read]
      exact holds
    have stays := (leaves.value?_of_has has).trans read
    rw [left, Bool.eq_false_iff]
    intro distinctAfter
    have distinctItem :=
      isDistinct_array_iff.mp (isDistinct_of_value? distinctAfter stays) item member
    rw [isDistinct_eq_of_same item element same, ambiguous] at distinctItem
    cases distinctItem

/-- **Patching keeps one key for each name, but for elements that are given with more.** Take a
resource in which no object has two keys that are the same up to case, and values whose entries are in
order, as those of a document are.

- Whatever the operations of a patch are, and wherever it fails, there are no such keys afterwards
  either, if no element that is stored as it is given has them.
- If an operation on a path succeeds and stores an element that holds something and has such keys, they
  are in the resource afterwards. -/
theorem patch_keepsKeys (limits : Limits) (view : View) (operations : List PatchOperation)
    (resource : Json) (valid : ∀ member ∈ view.members, member.schema.validate = .ok ())
    (ordered : resource.Ordered) (distinct : resource.isDistinct = true)
    (orderedValues : ∀ operation ∈ operations, ∀ value, operation.value = some value → value.Ordered) :
    ((∀ operation ∈ operations, ∀ element, operation.Stores view element →
        element.isDistinct = true) →
      (patch limits view operations resource).resource.Ordered ∧
        (patch limits view operations resource).resource.isDistinct = true) ∧
      ∀ operation path element, operations = [operation] → operation.path = some path →
        path.wholeExtension? view = none → operation.Stores view element →
        element.isPresent = true → element.isDistinct = false →
        (patch limits view operations resource).error = none →
        (patch limits view operations resource).resource.isDistinct = false := by
  constructor
  · intro distinctElements
    exact isKeyed_patch valid ⟨ordered, distinct⟩ orderedValues distinctElements
  · rintro operation path element rfl isPath attributewise stores present ambiguous done
    exact isDistinct_patch_eq_false distinct isPath attributewise stores present ambiguous done

/-- Entries that are merged may give a name twice, and the last one is kept. -/
theorem patch_keepsKeys_merged :
    let name : Attribute :=
      { name := "name", type := .complex, subAttributes := [.simple "given" .string] }
    let view := View.ofSchemas { id := "urn:a", attributes := [name] } []
    let resource : Json := .object [("NAME", .object [("Given", .string "x")])]
    let operation : PatchOperation :=
      { verb := .add, path := some { reference := ⟨none, "name", none⟩ }
        value := some (.object [("GIVEN", .string "y"), ("given", .string "z")]) }
    let outcome := patch {} view [operation] resource
    outcome.error = none ∧ outcome.resource = .object [("name", .object [("given", .string "z")])] ∧
      outcome.resource.Ordered ∧ outcome.resource.isDistinct = true := by
  refine ⟨rfl, rfl, (patch_keepsKeys {} _ _ _ ?valid ?ordered rfl ?orderedValues).1 ?elements⟩
  case valid =>
    intro member member_mem
    rw [List.mem_singleton.mp member_mem]
    rfl
  case ordered =>
    have inOrder : Object.Sorted [("Given", .string "x")] := List.pairwise_singleton _ _
    exact ⟨List.pairwise_singleton _ _, ⟨inOrder, trivial, trivial⟩, trivial⟩
  case orderedValues =>
    intro operation member value isValue
    rw [List.mem_singleton.mp member] at isValue
    cases isValue
    have inOrder : Object.Sorted [("GIVEN", .string "y"), ("given", .string "z")] :=
      List.pairwise_pair.mpr (by decide)
    exact ⟨inOrder, trivial, trivial, trivial⟩
  case elements =>
    rintro operation member element ⟨target, value, writes, inValue⟩
    rw [List.mem_singleton.mp member] at writes
    -- The name is no collection, so that nothing is stored as it is given.
    cases writes with
    | atPath isPath _ bound =>
      cases isPath
      cases bound
      cases inValue
    | inExtension isPath whole =>
      cases isPath
      cases whole
    | entry noPath | extensionEntry noPath => cases noPath

/-- A new element brings in two spellings of one name. -/
theorem patch_keepsKeys_element :
    let emails : Attribute :=
      { name := "emails", type := .complex, multiValued := true,
        subAttributes := [.simple "value" .string] }
    let view := View.ofSchemas { id := "urn:a", attributes := [emails] } []
    let element : Json := .object [("VALUE", .string "a"), ("value", .string "b")]
    let operation : PatchOperation :=
      { verb := .add, path := some { reference := ⟨none, "emails", none⟩ }
        value := some (.array [element]) }
    let outcome := patch {} view [operation] (.object [])
    outcome.error = none ∧ outcome.resource = .object [("emails", .array [element])] ∧
      (Json.object []).isDistinct = true ∧ outcome.resource.isDistinct = false := by
  exact ⟨rfl, rfl, rfl, rfl⟩

end Patches

end Scim
