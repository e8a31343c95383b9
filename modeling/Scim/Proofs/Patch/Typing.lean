import Scim.Proofs.Patch.Container
import Scim.Proofs.Patch.Steps
import Scim.Proofs.Patch.Values
import Scim.Proofs.Resource.Entries

/-!
# Changes keep attributes well-typed

The value of an operation is checked once, against the definition that its path is bound to, and then
written in one of many ways: appended, merged, put into every element or into some. Each of them
leaves a value of the type of its attribute, provided that the one it started from was of that type,
and each of them makes a new key only for the declared name of the attribute.
-/

namespace Scim

/-! ### Types of stored values -/

/-- The values that may be stored under an attribute. -/
inductive Attribute.Holds (definition : Attribute) : Json → Prop
  | null : Holds definition .null
  | single {value : Json} :
    definition.multiValued = false → definition.IsValue value → Holds definition value
  | many {items : List Json} :
    definition.multiValued = true → (∀ item ∈ items, definition.IsValue item) →
      Holds definition (.array items)

/-- Every entry of an object that names an attribute of a schema holds what the attribute may. -/
def Schema.Types (schema : Schema) (object : Object) : Prop :=
  ∀ entry ∈ object, ∀ definition, schema.find? entry.1 = some definition → definition.Holds entry.2

/-! ### Changes under one name -/

/-- What has been put into an object stands under spellings of a name and is of a kind, and the only
key that may be new is the name itself. -/
structure Object.Puts (name : String) (kind : Json → Prop) (before after : Object) : Prop where
  entries : ∀ entry ∈ after, entry ∈ before ∨ Text.fold entry.1 = Text.fold name ∧ kind entry.2
  keys : ∀ key ∈ after.keys, key ∈ before.keys ∨ key = name

namespace Object.Puts

variable {name : String} {kind : Json → Prop} {object before between after : Object} {value : Json}

theorem refl (object : Object) : Puts name kind object object :=
  ⟨fun _ member => .inl member, fun _ member => .inl member⟩

theorem trans (first : Puts name kind before between) (second : Puts name kind between after) :
    Puts name kind before after := by
  constructor
  · intro entry member
    rcases second.entries entry member with old | new
    · exact first.entries entry old
    · exact .inr new
  · intro key member
    rcases second.keys key member with old | new
    · exact first.keys key old
    · exact .inr new

theorem removeAttribute : Puts name kind object (object.removeAttribute name) := by
  refine ⟨fun entry member => .inl (mem_removeAttribute member), fun key member => .inl ?_⟩
  obtain ⟨entry, inObject, rfl⟩ := List.mem_map.mp member
  exact List.mem_map_of_mem (mem_removeAttribute inObject)

theorem setAttribute (is : kind value) : Puts name kind object (object.setAttribute name value) := by
  constructor
  · intro entry member
    rcases mem_setAttribute member with rfl | old
    · exact .inr ⟨rfl, is⟩
    · exact .inl old
  · intro key member
    obtain ⟨entry, inObject, rfl⟩ := List.mem_map.mp member
    rcases mem_setAttribute inObject with rfl | old
    · exact .inr rfl
    · exact .inl (List.mem_map_of_mem old)

theorem replaceSlot (is : kind value) : Puts name kind object (object.replaceSlot name value) := by
  constructor
  · intro entry member
    rcases mem_replaceSlot member with ⟨_, _, same, rfl⟩ | old
    · exact .inr ⟨same, is⟩
    · exact .inl old
  · intro key member
    obtain ⟨entry, inObject, rfl⟩ := List.mem_map.mp member
    rcases mem_replaceSlot inObject with ⟨_, there, _, rfl⟩ | old
    · exact .inl there
    · exact .inl (List.mem_map_of_mem old)

end Object.Puts

/-! ### Writing an attribute -/

open Object

section Writing

variable {definition sub : Attribute} {container : Object} {change : Change} {value : Json}

/-- Whatever stands under a spelling of the attribute, the attribute may hold. -/
def Attribute.HoldsIn (definition : Attribute) (container : Object) : Prop :=
  ∀ entry ∈ container, Text.fold entry.1 = Text.fold definition.name → definition.Holds entry.2

theorem Attribute.HoldsIn.slot (holds : definition.HoldsIn container)
    (stored : container.slot? definition.name = some value) : definition.Holds value := by
  obtain ⟨key, member, same⟩ := mem_of_slot? stored
  exact holds _ member same

theorem Object.Puts.holdsIn {after : Object}
    (puts : Puts definition.name definition.Holds container after)
    (holds : definition.HoldsIn container) : definition.HoldsIn after := by
  intro entry member same
  rcases puts.entries entry member with old | ⟨_, new⟩
  · exact holds entry old same
  · exact new

theorem Schema.Types.holdsIn {schema : Schema} (types : schema.Types container)
    (valid : schema.validate = .ok ()) (declared : definition ∈ schema.attributes) :
    definition.HoldsIn container := by
  intro entry member same
  have found : schema.find? entry.1 = some definition :=
    (Attribute.find?_congr same).trans (Schema.find?_name valid declared)
  exact types entry member definition found

theorem mem_addItems {item : Json} {collection items : List Json}
    (member : item ∈ addItems collection items) : item ∈ collection ∨ item ∈ items := by
  induction items generalizing collection with
  | nil => exact .inl member
  | cons head rest ih =>
    rw [addItems] at member
    split at member
    · exact (ih member).imp_right (List.mem_cons_of_mem _)
    · rcases ih member with collected | behind
      · rcases List.mem_append.mp collected with old | new
        · exact .inl old
        · exact .inr (List.mem_singleton.mp new ▸ List.mem_cons_self)
      · exact .inr (List.mem_cons_of_mem _ behind)

/-- The items of a multi-valued attribute are values of it. -/
theorem Attribute.HoldsIn.isValue_of_mem (holds : definition.HoldsIn container)
    (many : definition.multiValued = true) {item : Json}
    (member : item ∈ storedItems (container.slot? definition.name)) : definition.IsValue item := by
  cases stored : container.slot? definition.name with
  | none =>
    rw [stored] at member
    cases member
  | some value =>
    rw [stored] at member
    cases holds.slot stored with
    | null => cases member
    | single single _ =>
      rw [many] at single
      cases single
    | many _ each => exact each item member

theorem Attribute.HoldsIn.isValue_of_mem_elements (holds : definition.HoldsIn container)
    (many : definition.multiValued = true) {item : Json}
    (member : item ∈ storedElements (container.slot? definition.name)) : definition.IsValue item :=
  holds.isValue_of_mem many (mem_storedItems_of_mem_storedElements member)

theorem addToCollection_puts (holds : definition.HoldsIn container)
    (many : definition.multiValued = true)
    (accepted : ∀ item ∈ addedItems value, definition.IsValue item) :
    Puts definition.name definition.Holds container
      (addToCollection definition.name value container) := by
  simp only [addToCollection]
  split
  · exact .removeAttribute
  · refine .trans .removeAttribute (.setAttribute (.many many fun item member => ?_))
    rcases mem_addItems member with old | new
    · exact holds.isValue_of_mem many old
    · exact accepted item new

theorem replaceCollection_puts (is : definition.Holds value) :
    Puts definition.name definition.Holds container
      (replaceCollection definition.name value container) := by
  unfold replaceCollection
  split
  · exact .setAttribute is
  · exact .removeAttribute

/-- Merging accepted entries leaves accepted entries. -/
theorem acceptsEntry_of_mergeEntries
    (named : ∀ sub ∈ definition.subAttributes, definition.sub? sub.name = some sub)
    {current entries : Object} (stored : ∀ entry ∈ current, definition.AcceptsEntry entry)
    (accepted : ∀ entry ∈ entries, definition.AcceptsEntry entry) :
    ∀ entry ∈ mergeEntries definition current entries, definition.AcceptsEntry entry := by
  induction entries generalizing current with
  | nil => exact stored
  | cons head rest ih =>
    obtain ⟨key, value⟩ := head
    obtain ⟨sub, found, accepts⟩ := accepted (key, value) List.mem_cons_self
    refine ih ?_ fun entry member => accepted entry (List.mem_cons_of_mem _ member)
    intro entry member
    simp only [found, Option.elim_some] at member
    split at member
    · exact stored entry (mem_removeAttribute member)
    · rcases mem_setAttribute member with rfl | old
      · exact ⟨sub, named sub (Attribute.find?_eq_some found).1, accepts⟩
      · exact stored entry old

theorem mergeInto_puts
    (named : ∀ sub ∈ definition.subAttributes, definition.sub? sub.name = some sub)
    (holds : definition.HoldsIn container) (single : definition.multiValued = false)
    {entries : Object} (accepted : definition.IsValue (.object entries)) :
    Puts definition.name definition.Holds container (mergeInto definition entries container) := by
  obtain ⟨complex, each⟩ := Attribute.isValue_object_iff.mp accepted
  -- The entries of the value that is stored, of which there are none if it is no object.
  have stored : ∀ entry ∈ ((container.slot? definition.name).bind Json.object?).getD [],
      definition.AcceptsEntry entry := by
    intro entry member
    cases there : container.slot? definition.name with
    | none =>
      rw [there] at member
      cases member
    | some value =>
      rw [there] at member
      cases value with
      | object fields =>
        cases holds.slot there with
        | single _ isValue => exact (Attribute.isValue_object_iff.mp isValue).2 entry member
      | _ => cases member
  have merged := acceptsEntry_of_mergeEntries named stored each
  simp only [mergeInto]
  split
  · have isValue := Attribute.isValue_object_iff.mpr ⟨complex, merged⟩
    exact .trans .removeAttribute (.setAttribute (.single single isValue))
  · exact .removeAttribute

theorem storeItems_puts (many : definition.multiValued = true) {items : List Json}
    (each : ∀ item ∈ items, definition.IsValue item) :
    Puts definition.name definition.Holds container (storeItems definition.name items container) := by
  unfold storeItems
  split
  · exact .removeAttribute
  · exact .replaceSlot (.many many each)

/-- Writing an accepted value to a sub-attribute, or clearing it, leaves a value. -/
theorem isValue_changeSub (named : definition.sub? sub.name = some sub)
    (accepted : ∀ value, change.value? = some value → sub.Accepts true value) {element : Object}
    (isValue : definition.IsValue (.object element)) :
    definition.IsValue (.object (changeSub change sub element)) := by
  obtain ⟨complex, each⟩ := Attribute.isValue_object_iff.mp isValue
  refine Attribute.isValue_object_iff.mpr ⟨complex, fun entry member => ?_⟩
  unfold changeSub at member
  split at member
  next value written =>
    rcases mem_setAttribute member with rfl | old
    · exact ⟨sub, named, fun _ => accepted value written⟩
    · exact each entry old
  · exact each entry (mem_removeAttribute member)

/-- The object that a single value is, or stands in for it. -/
theorem ensureObject_puts (complex : definition.isComplex = true)
    (single : definition.multiValued = false) :
    Puts definition.name definition.Holds container (ensureObject definition.name container) := by
  unfold ensureObject
  split
  · exact .refl container
  · have empty : definition.IsValue (.object []) :=
      Attribute.isValue_object_iff.mpr ⟨complex, fun _ member => absurd member List.not_mem_nil⟩
    exact .setAttribute (.single single empty)

theorem changeSubOfValue_puts (holds : definition.HoldsIn container)
    (complex : definition.isComplex = true) (single : definition.multiValued = false)
    (named : definition.sub? sub.name = some sub)
    (accepted : ∀ value, change.value? = some value → sub.Accepts true value) :
    Puts definition.name definition.Holds container
      (changeSubOfValue definition.name sub change container) := by
  -- The value that is rewritten is a value of the attribute, and so is what it is rewritten to.
  have rewritten {container : Object} (holds : definition.HoldsIn container) {parent : Object}
      (stored : container.slot? definition.name = some (.object parent)) :
      definition.Holds (.object (changeSub change sub parent)) := by
    cases holds.slot stored with
    | single _ isValue => exact .single single (isValue_changeSub named accepted isValue)
  unfold changeSub at rewritten
  unfold changeSubOfValue
  cases written : change.value? with
  | some value =>
    simp only [written] at rewritten
    have ensured : Puts definition.name definition.Holds container
        (ensureObject definition.name container) := ensureObject_puts complex single
    simp only [setSub]
    split
    next parent stored => exact ensured.trans (.replaceSlot (rewritten (ensured.holdsIn holds) stored))
    · exact ensured
  | none =>
    simp only [written] at rewritten
    simp only [clearSub]
    split
    next parent stored =>
      split
      · exact .replaceSlot (rewritten holds stored)
      · exact .removeAttribute
    · exact .refl container

end Writing

/-! ### Changing an attribute -/

section Changing

variable {schema : Schema} {target : Target} {change : Change} {before after : Object}

/-- What the check of the value of an operation guarantees, by what the operation is aimed at. -/
theorem Target.accepts_of_checkValue_sub {sub : Attribute} (inner : target.sub = some sub)
    (checked : target.checkValue change = .ok ()) :
    ∀ value, change.value? = some value → sub.Accepts true value := by
  intro value written
  rw [checkValue, written, inner] at checked
  exact Attribute.accepts_of_check value checked

theorem Target.isValue_of_checkValue_filter {filter : Filter} (inner : target.sub = none)
    (filtered : target.filter = some filter) (checked : target.checkValue change = .ok ()) :
    ∀ value, change.value? = some value → target.definition.IsValue value := by
  intro value written
  rw [checkValue, written, inner, filtered] at checked
  exact Attribute.accepts_of_check value checked

theorem Target.isValue_of_checkValue_single (inner : target.sub = none) (whole : target.filter = none)
    (single : target.definition.multiValued = false) (checked : target.checkValue change = .ok ()) :
    ∀ value, change.value? = some value → target.definition.IsValue value := by
  intro value written
  simp only [checkValue, written, inner, whole, single, Bool.false_eq_true, if_false] at checked
  exact Attribute.accepts_of_check value checked

theorem Target.isValue_of_checkValue_many (inner : target.sub = none) (whole : target.filter = none)
    (many : target.definition.multiValued = true) (checked : target.checkValue change = .ok ()) :
    (∀ value, change = .add value → ∀ item ∈ addedItems value, target.definition.IsValue item) ∧
      ∀ value, change = .replace value → target.definition.Holds value := by
  have isValue_of_mem {items : List Json} {item : Json} (member : item ∈ items)
      (each : target.definition.checkItems target.path items = .ok ()) :
      target.definition.IsValue item :=
    Attribute.accepts_of_check item (Attribute.checkItems_eq_ok_iff.mp each item member)
  constructor
  · rintro value rfl
    simp only [checkValue, Change.value?, inner, whole, many, if_true] at checked
    cases value with
    | array items => exact fun item member => isValue_of_mem member checked
    | _ =>
      intro item member
      rw [List.mem_singleton.mp member]
      exact Attribute.accepts_of_check _ checked
  · rintro value rfl
    simp only [checkValue, Change.value?, inner, whole, many, if_true] at checked
    cases value with
    | array items => exact .many many fun item member => isValue_of_mem member checked
    | _ => cases checked

theorem applyInContainer_puts (valid : schema.validate = .ok ())
    (declared : target.definition ∈ schema.attributes)
    (subDeclared : ∀ sub, target.sub = some sub → sub ∈ target.definition.subAttributes)
    (holds : target.definition.HoldsIn before) (checked : target.checkValue change = .ok ())
    (applicable : target.filter.isSome = true → target.definition.multiValued = true)
    (applied : applyInContainer target change before = .ok () after) :
    Puts target.definition.name target.definition.Holds before after := by
  have named (sub : Attribute) (member : sub ∈ target.definition.subAttributes) :=
    Schema.sub?_name valid declared member
  have accepted (sub : Attribute) (inner : target.sub = some sub) :=
    Target.accepts_of_checkValue_sub inner checked
  obtain ⟨_, rewrites⟩ := applyInContainer_eq_ok applied
  cases rewrites with
  | removed => exact .removeAttribute
  | @added value whole inner many added =>
    have values := (Target.isValue_of_checkValue_many inner whole many checked).1 value added
    exact addToCollection_puts holds many values
  | @replaced value whole inner many replaced =>
    have is := (Target.isValue_of_checkValue_many inner whole many checked).2 value replaced
    exact replaceCollection_puts is
  | merged whole inner single _ written =>
    have isValue := Target.isValue_of_checkValue_single inner whole single checked _ written
    exact mergeInto_puts named holds single isValue
  | overwritten whole inner single _ written =>
    have isValue := Target.isValue_of_checkValue_single inner whole single checked _ written
    exact .setAttribute (.single single isValue)
  | untouched => exact .refl before
  | @subOfItems sub _ _ inner many _ _ rewritten =>
    -- The elements are rewritten one by one, and some of them may be dropped afterwards.
    have each := forall_mem_changeSubOfAll rewritten
      (fun item member => holds.isValue_of_mem_elements many member)
      fun _ => isValue_changeSub (named sub (subDeclared sub inner)) (accepted sub inner)
    exact storeItems_puts many fun item member => each item (List.mem_filter.mp member).1
  | @subOfValue sub _ inner single =>
    have member := subDeclared sub inner
    have complex := Schema.isComplex_of_mem_subAttributes valid declared member
    exact changeSubOfValue_puts holds complex single (named sub member) (accepted sub inner)
  | selected filtered _ selected =>
    have many := applicable (filtered ▸ rfl)
    refine storeItems_puts many (forall_mem_changeSelected ?_ ?_ ?_ selected)
    · exact fun item member => holds.isValue_of_mem_elements many member
    · exact fun inner => Target.isValue_of_checkValue_filter inner filtered checked
    · exact fun sub inner _ => isValue_changeSub (named sub (subDeclared sub inner)) (accepted sub inner)

end Changing

end Scim
