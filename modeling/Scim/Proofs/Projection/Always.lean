import Scim.Proofs.Projection.Visible
import Scim.Proofs.Recasing

/-!
# What is always returned

An attribute that is always returned is visible under every selection, but a complex one is shown
through its sub-attributes, and these have conditions of their own. So it is shown exactly if one of
its sub-attributes that hold something is: where a selection names other sub-attributes of it, or
excludes the ones that hold something, nothing is left of the attribute, although the whole is always
to be returned.

Nothing is assumed of the view but that its schemas are valid, so a key may stand for an attribute of
the base as well as for an extension. `View.Holds` says which of the two has it.
-/

namespace Scim

/-! ### What is left of a value -/

/-- Something of a complex value is to be seen: the value itself if it has no parts, or a part of it.
-/
inductive Attribute.HoldsShown (definition : Attribute) (sees : Attribute → Prop) : Json → Prop
  | scalar {value : Json} : value.isScalar = true → value.isPresent = true → HoldsShown definition sees value
  | sub {fields : Object} {sub : Attribute} : sub ∈ definition.subAttributes → sees sub →
      fields.has sub.name = true → HoldsShown definition sees (.object fields)
  | element {items : List Json} {item : Json} : item ∈ items → HoldsShown definition sees item →
      HoldsShown definition sees (.array items)

section Values

variable {definition : Attribute} {shows : Attribute → Bool} {sees : Attribute → Prop}

theorem holdsShown_scalar_iff {value : Json} (isScalar : value.isScalar = true) :
    definition.HoldsShown sees value ↔ value.isPresent = true := by
  constructor
  · intro holds
    cases holds with
    | scalar _ present => exact present
    | sub | element => cases isScalar
  · exact .scalar isScalar

theorem holdsShown_array_iff {items : List Json} :
    definition.HoldsShown sees (.array items) ↔ ∃ item ∈ items, definition.HoldsShown sees item := by
  constructor
  · intro holds
    cases holds with
    | scalar isScalar => cases isScalar
    | element member holds => exact ⟨_, member, holds⟩
  · rintro ⟨_, member, holds⟩
    exact .element member holds

theorem Object.has_iff {object : Object} {name : String} :
    object.has name = true ↔ ∃ value, object.attribute? name = some value ∧ value.isPresent = true := by
  simp [Object.has, Option.any_eq_true]

mutual

/-- Something is left of a projected value if and only if something of the value is to be seen. -/
theorem isPresent_projectComplex_iff
    (named : ∀ sub ∈ definition.subAttributes, definition.sub? sub.name = some sub)
    (agree : ∀ sub ∈ definition.subAttributes, (shows sub = true ↔ sees sub)) :
    ∀ value, value.isDistinct = true →
      ((projectComplex definition shows value).isPresent = true ↔ definition.HoldsShown sees value)
  | .array items, distinct => by
    rw [projectComplex, Json.isPresent_array_iff, holdsShown_array_iff,
      ← exists_isPresent_projectItems_iff named agree items distinct]
  | .object fields, distinct => by
    have shown := mem_projected_iff named agree (Json.isDistinct_object_iff.mp distinct).1
    rw [projectComplex, Json.isPresent_object_iff]
    constructor
    · rintro ⟨entry, member, present⟩
      obtain ⟨sub, declared, _, seen, stored, _⟩ := (shown entry).mp member
      exact .sub declared seen (Object.has_iff.mpr ⟨_, stored, present⟩)
    · intro holds
      cases holds with
      | scalar isScalar => cases isScalar
      | @sub _ sub declared seen has =>
        obtain ⟨value, stored, present⟩ := Object.has_iff.mp has
        exact ⟨(sub.name, value), (shown _).mpr ⟨sub, declared, rfl, seen, stored, present⟩, present⟩
  | .null, _ | .bool _, _ | .number _, _ | .string _, _ => (holdsShown_scalar_iff rfl).symm

theorem exists_isPresent_projectItems_iff
    (named : ∀ sub ∈ definition.subAttributes, definition.sub? sub.name = some sub)
    (agree : ∀ sub ∈ definition.subAttributes, (shows sub = true ↔ sees sub)) :
    ∀ items, Json.isDistinctItems items = true →
      ((∃ item ∈ projectItems definition shows items, item.isPresent = true) ↔
        ∃ item ∈ items, definition.HoldsShown sees item)
  | [], _ => by simp [projectItems]
  | item :: rest, distinct => by
    obtain ⟨distinctItem, distinctRest⟩ := Bool.and_eq_true_iff.mp distinct
    have first := isPresent_projectComplex_iff named agree item distinctItem
    have others := exists_isPresent_projectItems_iff named agree rest distinctRest
    rw [List.exists_mem_cons_iff, ← first, ← others, projectItems]
    cases left : (projectComplex definition shows item).isPresent <;> simp [left]

end

end Values

/-! ### Attributes that are always returned -/

section Attributes

variable {selection : Selection} {view : View} {member : Member} {definition : Attribute}

/-- A simple attribute that is always returned shows its value, and a complex one shows what is left
of it. -/
theorem exists_value?_iff (valid : member.schema.validate = .ok ()) (member_mem : member ∈ view.members)
    (declared : definition ∈ member.schema.attributes) (always : definition.returned = .always)
    (readable : definition.mutability ≠ .writeOnly) {stored : Json} (present : stored.isPresent = true)
    (distinct : stored.isDistinct = true) :
    (∃ shown, (selection.projection view).value? member definition stored = some shown) ↔
      (definition.isComplex = true →
        definition.HoldsShown (selection.SeesSub view member definition) stored) := by
  have returned : definition.returned ≠ .never := by
    rw [always]
    decide
  have left := isPresent_projectComplex_iff (fun _ => Schema.sub?_name valid declared)
    (fun _ => seesSub_iff selection valid member_mem declared returned) stored distinct
  have visible : selection.visibility view member definition ≠ .none :=
    visibility_ne_none_iff.mpr (.inl always)
  have notHidden := isHidden_eq_false_iff.mpr ⟨returned, readable⟩
  simp only [value?_eq_some, ← left]
  cases isComplex : definition.isComplex with
  | false => simp [notHidden, present, visible]
  | true => simp [notHidden, present, visible]

/-- What of a sub-attribute shows without being named. -/
structure Attribute.IsReturned (sub : Attribute) : Prop where
  returned : sub.returned = .default ∨ sub.returned = .always
  readable : sub.mutability ≠ .writeOnly

/-- Where no list names a sub-attribute, all that are returned by default are seen. -/
theorem seesSub_of_isReturned (always : definition.returned = .always)
    (unnamed : ∀ sub, ¬view.NamesSub selection.included member definition sub ∧
      ¬view.NamesSub selection.excluded member definition sub) {sub : Attribute}
    (is : sub.IsReturned) : selection.SeesSub view member definition sub := by
  have whole : selection.SeesWhole view member definition :=
    .always always fun sub => (unnamed sub).1
  refine ⟨fun never => ?_, is.readable, ?_⟩
  · rcases is.returned with byDefault | always
    · rw [byDefault] at never
      cases never
    · rw [always] at never
      cases never
  · rcases is.returned with byDefault | always
    · exact .inr (.inr ⟨whole, byDefault, (unnamed sub).2⟩)
    · exact .inl always

theorem Attribute.HoldsShown.mono {sees more : Attribute → Prop} (subset : ∀ sub, sees sub → more sub)
    {value : Json} (holds : definition.HoldsShown sees value) : definition.HoldsShown more value := by
  induction holds with
  | scalar isScalar present => exact .scalar isScalar present
  | sub declared seen has => exact .sub declared (subset _ seen) has
  | element member _ ih => exact .element member ih

end Attributes

/-! ### Entries of a projected object -/

namespace Object

variable {object : Object} {change : String × Json → Option (String × Json)} {name key : String}
  {stored : Json}

theorem eq_of_mem_of_fold_eq (distinct : object.Distinct) {entry other : String × Json}
    (member : entry ∈ object) (memberOther : other ∈ object)
    (same : Text.fold entry.1 = Text.fold other.1) : entry = other := by
  have key : entry.1 = other.1 := distinct.unambiguous _ (List.mem_map_of_mem member) _
    (List.mem_map_of_mem memberOther) same
  have value := (attribute?_of_mem distinct member same).symm.trans
    (attribute?_of_mem distinct memberOther rfl)
  exact Prod.ext key (Option.some.inj value)

/-- Where entries are changed one by one and keep their names, a name holds what became of its entry.
-/
theorem attribute?_ofEntries_filterMap (distinct : object.Distinct)
    (keeps : ∀ entry changed, change entry = some changed → Text.fold changed.1 = Text.fold entry.1)
    (member : (key, stored) ∈ object) (same : Text.fold key = Text.fold name) :
    (ofEntries (object.filterMap change)).attribute? name = (change (key, stored)).map (·.2) := by
  have apart : Distinct (object.filterMap change) := distinct.filterMap keeps
  have apartMade : Distinct (ofEntries (object.filterMap change)) := apart.perm (ofEntries_perm apart).symm
  ext value
  rw [Option.map_eq_some_iff]
  constructor
  · intro read
    obtain ⟨changedKey, inMade, sameName⟩ := mem_of_attribute? read
    obtain ⟨entry, inObject, made⟩ := List.mem_filterMap.mp ((mem_ofEntries_iff apart).mp inMade)
    have sameKey : Text.fold entry.1 = Text.fold key :=
      (keeps entry _ made).symm.trans (sameName.trans same.symm)
    obtain rfl := eq_of_mem_of_fold_eq distinct inObject member sameKey
    exact ⟨_, made, rfl⟩
  · rintro ⟨changed, made, rfl⟩
    have inMade := (mem_ofEntries_iff apart).mpr (List.mem_filterMap.mpr ⟨_, member, made⟩)
    exact attribute?_of_mem apartMade inMade ((keeps _ _ made).trans same)

end Object

/-! ### Where a view has an attribute -/

/-- A resource holds a value of an attribute where the view has the attribute: under a key of the
resource itself, unless that is the key of an extension, or in the object of an extension. -/
inductive View.Holds (view : View) (resource : Object) (key : String) (member : Member)
    (definition : Attribute) (value : Json) : Prop
  | base : member = view.baseMember → key = definition.name → view.extensionFor? key = none →
      resource.attribute? key = some value → Holds view resource key member definition value
  | extension {fields : Object} : key = member.schema.id → view.extensionFor? key = some member →
      resource.attribute? key = some (.object fields) →
      fields.attribute? definition.name = some value → Holds view resource key member definition value

theorem View.holds_base_iff {view : View} {resource : Object} {definition : Attribute} {value : Json}
    (notExtension : view.extensionFor? definition.name = none) :
    view.Holds resource definition.name view.baseMember definition value ↔
      resource.attribute? definition.name = some value := by
  constructor
  · intro holds
    cases holds with
    | base _ _ _ read => exact read
    | extension _ found =>
      rw [notExtension] at found
      cases found
  · exact .base rfl rfl notExtension

theorem View.holds_extension_iff {view : View} {resource : Object} {key : String} {member : Member}
    {definition : Attribute} {value : Json} (isUrn : key = member.schema.id)
    (found : view.extensionFor? key = some member) :
    view.Holds resource key member definition value ↔
      ∃ fields : Object, resource.attribute? key = some (.object fields) ∧
        fields.attribute? definition.name = some value := by
  constructor
  · intro holds
    cases holds with
    | base _ _ notExtension =>
      rw [notExtension] at found
      cases found
    | extension _ _ read readField => exact ⟨_, read, readField⟩
  · rintro ⟨_, read, readField⟩
    exact .extension isUrn found read readField

section Resources

variable {projection : Projection} {member : Member} {definition : Attribute} {key : String}
  {stored : Json} {resource fields : Object}

theorem map_attributeEntry (valid : member.schema.validate = .ok ())
    (declared : definition ∈ member.schema.attributes)
    (same : Text.fold key = Text.fold definition.name) :
    (projection.attributeEntry member (key, stored)).map (·.2) =
      projection.value? member definition stored := by
  have found : member.schema.find? key = some definition :=
    (Attribute.find?_congr same).trans (Schema.find?_name valid declared)
  unfold Projection.attributeEntry
  rw [found]
  cases value : projection.value? member definition stored <;> simp [value]

/-- The shown object of an extension holds what is shown of an attribute. -/
theorem attribute?_entries (valid : member.schema.validate = .ok ())
    (declared : definition ∈ member.schema.attributes) (distinct : fields.Distinct)
    (read : fields.attribute? definition.name = some stored) :
    (projection.entries member fields).attribute? definition.name =
      projection.value? member definition stored := by
  obtain ⟨key, inFields, same⟩ := Object.mem_of_attribute? read
  have changed := Object.attribute?_ofEntries_filterMap distinct
    (fun _ _ => projection.fold_of_attributeEntry member) inFields same
  exact changed.trans (map_attributeEntry valid declared same)

/-- The entries of a resource as they are shown. -/
def Projection.shown (projection : Projection) (resource : Object) : Object :=
  Object.ofEntries (resource.filterMap fun entry => projection.entry? entry.1 entry.2)

theorem attribute?_shown (distinct : resource.Distinct) (read : resource.attribute? key = some stored) :
    ∃ spelling, Text.fold spelling = Text.fold key ∧
      (projection.shown resource).attribute? key = (projection.entry? spelling stored).map (·.2) := by
  obtain ⟨spelling, inResource, same⟩ := Object.mem_of_attribute? read
  exact ⟨spelling, same, Object.attribute?_ofEntries_filterMap distinct
    (fun _ _ => projection.fold_of_entry?) inResource same⟩

/-- The shown resource holds the list of schemas as the resource does. -/
theorem attribute?_shown_schemas (distinct : resource.Distinct)
    (read : resource.attribute? key = some stored) (isSchemas : Text.sameName key "schemas" = true) :
    (projection.shown resource).attribute? key = some stored := by
  obtain ⟨spelling, same, shown⟩ := attribute?_shown distinct read
  have isSchemasToo : Text.sameName spelling "schemas" = true :=
    Text.sameName_iff.mpr (same.trans (Text.sameName_iff.mp isSchemas))
  rw [shown, Projection.entry?, if_pos isSchemasToo]
  rfl

/-- Under any other key that is not that of an extension it holds what is shown of the attribute. -/
theorem attribute?_shown_base (valid : projection.view.base.validate = .ok ())
    (declared : definition ∈ projection.view.base.attributes) (distinct : resource.Distinct)
    (read : resource.attribute? definition.name = some stored)
    (notSchemas : Text.sameName definition.name "schemas" = false)
    (notExtension : projection.view.extensionFor? definition.name = none) :
    (projection.shown resource).attribute? definition.name =
      projection.value? projection.view.baseMember definition stored := by
  obtain ⟨spelling, same, shown⟩ := attribute?_shown distinct read
  have notSchemasToo : Text.sameName spelling "schemas" = false := by
    rwa [Text.sameName, same]
  have ofBase : (projection.attributeEntry projection.view.baseMember (spelling, stored)).map (·.2) =
      projection.value? projection.view.baseMember definition stored :=
    map_attributeEntry valid declared same
  rw [shown, projection.entry?_eq (spelling, stored), notSchemasToo, View.extensionFor?_congr same,
    notExtension]
  exact ofBase

/-- And under the key of an extension it holds what is shown of the extension, if that is anything. -/
theorem attribute?_shown_extension (distinct : resource.Distinct)
    (read : resource.attribute? key = some (.object fields))
    (notSchemas : Text.sameName key "schemas" = false)
    (found : projection.view.extensionFor? key = some member) :
    (projection.shown resource).attribute? key =
      if (projection.entries member fields).isEmpty then none
      else some (.object (projection.entries member fields)) := by
  obtain ⟨spelling, same, shown⟩ := attribute?_shown distinct read
  have notSchemasToo : Text.sameName spelling "schemas" = false := by
    rwa [Text.sameName, same]
  rw [shown, projection.entry?_eq (spelling, .object fields), notSchemasToo,
    View.extensionFor?_congr same, found]
  simp only [Bool.false_eq_true, if_false, Projection.extensionEntry]
  cases (projection.entries member fields).isEmpty <;> rfl

/-- An object that holds something of an attribute is not left out for being empty. -/
theorem exists_shown_fields_iff (valid : member.schema.validate = .ok ())
    (declared : definition ∈ member.schema.attributes) (distinct : fields.Distinct)
    (readField : fields.attribute? definition.name = some stored) {shown : Json} :
    (∃ left : Object, (if (projection.entries member fields).isEmpty then none
        else some (.object (projection.entries member fields))) = some (Json.object left) ∧
      left.attribute? definition.name = some shown) ↔
      projection.value? member definition stored = some shown := by
  rw [← attribute?_entries valid declared distinct readField]
  constructor
  · rintro ⟨left, isLeft, read⟩
    obtain ⟨_, same⟩ := Option.ite_none_left_eq_some.mp isLeft
    cases same
    exact read
  · intro read
    obtain ⟨_, inEntries, _⟩ := Object.mem_of_attribute? read
    have notEmpty : ¬(projection.entries member fields).isEmpty = true := by
      rw [List.isEmpty_iff]
      exact List.ne_nil_of_mem inEntries
    exact ⟨_, if_neg notEmpty, read⟩

/-- The shown resource holds something of an attribute if and only if the attribute shows something of
its value. -/
theorem exists_holds_shown_iff (projection : Projection) (valid : member.schema.validate = .ok ())
    (declared : definition ∈ member.schema.attributes)
    (distinct : Json.isDistinct (.object resource) = true)
    (holds : projection.view.Holds resource key member definition stored) :
    (∃ shown, projection.view.Holds (projection.shown resource) key member definition shown) ↔
      Text.sameName key "schemas" = true ∨
        ∃ shown, projection.value? member definition stored = some shown := by
  have apart := (Json.isDistinct_object_iff.mp distinct).1
  cases isSchemas : Text.sameName key "schemas" with
  | true =>
    -- What stands under `schemas` is shown as it is.
    have there : ∃ shown, projection.view.Holds (projection.shown resource) key member definition shown := by
      cases holds with
      | base isBase isName notExtension read =>
        exact ⟨stored, .base isBase isName notExtension (attribute?_shown_schemas apart read isSchemas)⟩
      | extension isUrn found read readField =>
        exact ⟨stored, .extension isUrn found (attribute?_shown_schemas apart read isSchemas) readField⟩
    simp [there]
  | false =>
    simp only [Bool.false_eq_true, false_or]
    refine exists_congr fun shown => ?_
    cases holds with
    | base isBase isName notExtension read =>
      subst isBase isName
      rw [View.holds_base_iff notExtension,
        attribute?_shown_base valid declared apart read isSchemas notExtension]
    | @extension fields isUrn found read readField =>
      have apartFields :=
        (Json.isDistinct_object_iff.mp (Json.isDistinct_of_attribute? distinct read)).1
      rw [View.holds_extension_iff isUrn found, attribute?_shown_extension apart read isSchemas found]
      exact exists_shown_fields_iff valid declared apartFields readField

end Resources

/-- **An attribute that is always returned** is in the output of a projection, if it is not only written,
exactly if it is simple or one of its sub-attributes that hold something is to be seen. So it is there
whenever no list names a sub-attribute of it and some sub-attribute that is returned by default or
always holds something. -/
theorem project_always (selection : Selection) (view : View) (resource : Object)
    (valid : ∀ member ∈ view.members, member.schema.validate = .ok ())
    (distinct : Json.isDistinct (.object resource) = true)
    (oneList : selection.included = [] ∨ selection.excluded = []) :
    ∃ output : Object, project selection view (.object resource) = .ok (.object output) ∧
      ∀ key member definition stored, view.Holds resource key member definition stored →
        definition ∈ member.schema.attributes → definition.returned = .always →
        definition.mutability ≠ .writeOnly → stored.isPresent = true →
        ((∃ shown, view.Holds output key member definition shown) ↔
          Text.sameName key "schemas" = true ∨ (definition.isComplex = true →
            definition.HoldsShown (selection.SeesSub view member definition) stored)) ∧
        ((∀ sub, ¬view.NamesSub selection.included member definition sub ∧
            ¬view.NamesSub selection.excluded member definition sub) →
          (definition.isComplex = true → definition.HoldsShown Attribute.IsReturned stored) →
            ∃ shown, view.Holds output key member definition shown) := by
  have notAmbiguous : ¬(!selection.included.isEmpty && !selection.excluded.isEmpty) = true := by
    rcases oneList with empty | empty <;> simp [empty]
  refine ⟨(selection.projection view).shown resource, if_neg notAmbiguous, ?_⟩
  intro key member definition stored holds declared always readable present
  have member_mem : member ∈ view.members := by
    cases holds with
    | base isBase =>
      subst isBase
      exact List.mem_cons_self
    | extension _ found =>
      exact View.mem_members_of_mem_extensionMembers (View.extensionFor?_eq_some found)
  have distinctStored : stored.isDistinct = true := by
    cases holds with
    | base _ _ _ read => exact Json.isDistinct_of_attribute? distinct read
    | extension _ _ read readField =>
      exact Json.isDistinct_of_attribute? (Json.isDistinct_of_attribute? distinct read) readField
  have there := exists_holds_shown_iff (selection.projection view) (valid member member_mem) declared
    distinct holds
  rw [exists_value?_iff (valid member member_mem) member_mem declared always readable present
    distinctStored] at there
  refine ⟨there, fun unnamed returned => there.mpr (.inr fun isComplex => ?_)⟩
  exact (returned isComplex).mono fun _ => seesSub_of_isReturned always unnamed

/-- A sub-attribute is asked for that holds something. -/
theorem project_always_asked :
    let number : Attribute := { name := "number" }
    let badge : Attribute :=
      { name := "badge", type := .complex, returned := .always
        subAttributes := [number, { name := "colour" }] }
    let view := View.ofSchemas { id := "urn:a", attributes := [{ name := "title" }] }
      [{ id := "urn:b", attributes := [badge] }]
    let member : Member := ⟨.extension 0, { id := "urn:b", attributes := [badge] }⟩
    let selection : Selection := { included := [⟨none, "badge", some "NUMBER"⟩] }
    let resource : Object :=
      [("title", .string "t"), ("urn:b", .object [("Badge", .object [("number", .string "7")])])]
    ∃ output : Object, project selection view (.object resource) = .ok (.object output) ∧
      ∃ shown, view.Holds output "urn:b" member badge shown := by
  intro number badge view member selection resource
  obtain ⟨output, projected, each⟩ := project_always selection view resource (by decide) (by decide)
    (.inr rfl)
  have holds : view.Holds resource "urn:b" member badge (.object [("number", .string "7")]) := by
    dsimp +zetaDelta only
    exact .extension rfl rfl rfl rfl
  have sees : selection.SeesSub view member badge number := by
    dsimp +zetaDelta only
    exact ⟨nofun, nofun, .inr (.inl ⟨_, List.mem_singleton_self _, rfl⟩)⟩
  have there := each "urn:b" member badge _ holds (by decide) rfl (by decide) rfl
  exact ⟨output, projected, there.1.mpr (.inr fun _ => .sub List.mem_cons_self sees rfl)⟩

/-- A sub-attribute is asked for that the attribute has not, or the only one that it has is excluded:
the attribute is lost. -/
theorem project_always_lost :
    let badge : Attribute :=
      { name := "badge", type := .complex, returned := .always
        subAttributes := [{ name := "number" }, { name := "colour" }] }
    let view := View.ofSchemas { id := "urn:a", attributes := [badge, { name := "title" }] } []
    let stored : Json := .object [("number", .string "7")]
    let resource : Object := [("badge", stored), ("title", .string "t")]
    let asking : Selection := { included := [⟨none, "badge", some "colour"⟩] }
    let excluding : Selection := { excluded := [⟨none, "badge", some "number"⟩] }
    (∀ member ∈ view.members, member.schema.validate = .ok ()) ∧
      view.Holds resource "badge" view.baseMember badge stored ∧
      badge.HoldsShown Attribute.IsReturned stored ∧
      project asking view (.object resource) = .ok (.object []) ∧
      project excluding view (.object resource) = .ok (.object [("title", .string "t")]) :=
  ⟨by decide, .base rfl rfl rfl rfl, .sub List.mem_cons_self ⟨.inl rfl, by decide⟩ rfl, rfl, rfl⟩

end Scim
